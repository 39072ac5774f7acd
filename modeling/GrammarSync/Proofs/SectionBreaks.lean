/-
# Sections stand apart by one blank line

Every text is a text that does not end in a line break, with some line breaks
behind it (`eq_settled_append`). Trimming leaves at most two of them
(`trimLineBreaks_append`), and the gap in front of a heading supplies the ones
that are missing, so that there are always two (`startSection_append`). How
many line breaks stood there before leaves no trace: what is in front of the
heading is the settled text.

A text of line breaks alone settles to the empty text but is not treated like
it: two line breaks stay in front of the heading.

Key definitions: `lineBreaks`, `Settled`, `settled`.
Key theorems: `trimLineBreaks_append`, `startSection_append`,
`sections_stand_apart`.
-/
import GrammarSync.Scope.Reference
import Mathlib.Data.List.DropRight

namespace GrammarSync
namespace Reference

/-- A number of line breaks. -/
def lineBreaks (n : Nat) : String :=
  String.ofList (List.replicate n '\n')

/-- The text does not end in a line break. -/
def Settled (body : String) : Prop :=
  body.toList.getLast? ≠ some '\n'

/-- The text without the line breaks at its end. -/
def settled (out : String) : String :=
  String.ofList (out.toList.rdropWhile (· = '\n'))

theorem toList_lineBreaks (n : Nat) : (lineBreaks n).toList = List.replicate n '\n' := by
  rw [lineBreaks, String.toList_ofList]

theorem lineBreaks_two : lineBreaks 2 = "\n\n" := by
  decide

theorem settled_settled (out : String) : Settled (settled out) := by
  intro hlast
  rw [settled, String.toList_ofList] at hlast
  obtain ⟨hne, heq⟩ := List.mem_getLast?_eq_getLast hlast
  exact List.rdropWhile_last_not _ _ hne (decide_eq_true heq.symm)

/-- What settling takes away is line breaks. -/
theorem eq_settled_append (out : String) : ∃ n, out = settled out ++ lineBreaks n := by
  have hbreaks : ∀ c ∈ out.toList.rtakeWhile (· = '\n'), c = '\n' := by
    intro c hc
    simpa using List.mem_rtakeWhile_imp hc
  refine ⟨(out.toList.rtakeWhile (· = '\n')).length, String.toList_inj.mp ?_⟩
  rw [String.toList_append, toList_lineBreaks, settled, String.toList_ofList,
    ← List.eq_replicate_of_mem hbreaks, List.rdropWhile_append_rtakeWhile]

theorem lineBreaks_succ_ne (n : Nat) : lineBreaks (n + 1) ≠ "" := by
  intro hempty
  have hlist := congrArg String.toList hempty
  rw [toList_lineBreaks, List.replicate_succ] at hlist
  exact absurd hlist (List.cons_ne_nil _ _)

section

variable {body : String} (h : Settled body)
include h

theorem endingLineBreaks_append (n : Nat) : endingLineBreaks (body ++ lineBreaks n) = n := by
  have hbody : body.toList.reverse.takeWhile (· = '\n') = [] := by
    rw [Settled, ← List.head?_reverse] at h
    cases hcs : body.toList.reverse with
    | nil => rfl
    | cons c rest =>
      rw [hcs] at h
      exact List.takeWhile_cons_of_neg fun hc => h (congrArg some (of_decide_eq_true hc))
  rw [endingLineBreaks, String.toList_append, toList_lineBreaks, List.reverse_append,
    List.reverse_replicate, List.takeWhile_append_of_pos, hbody, List.append_nil,
    List.length_replicate]
  exact fun c hc => decide_eq_true (List.eq_of_mem_replicate hc)

/-- Trimming leaves the text itself alone and at most two line breaks behind it. -/
theorem trimLineBreaks_append (n : Nat) :
    trimLineBreaks (body ++ lineBreaks n) = body ++ lineBreaks (min n 2) := by
  have hlength : body.toList.length + n - (n - 2) = body.toList.length + min n 2 := by omega
  apply String.toList_inj.mp
  rw [trimLineBreaks, endingLineBreaks_append h, String.toList_ofList, String.toList_append,
    String.toList_append, toList_lineBreaks, toList_lineBreaks, List.length_append,
    List.length_replicate, hlength, List.take_length_add_append, List.take_replicate]
  congr 2
  omega

/-- Two line breaks stand in front of the heading, whatever their number was. -/
theorem startSection_append {n : Nat} (hne : body ++ lineBreaks n ≠ "") (heading : String) :
    startSection (body ++ lineBreaks n) heading = body ++ "\n\n" ++ heading ++ "\n\n" := by
  have hfilled : ∀ m, body ++ lineBreaks m ≠ "" → ¬(body ++ lineBreaks m).isEmpty :=
    fun m hm he => hm (String.isEmpty_iff.mp he)
  have hbroken : ∀ m, body ++ lineBreaks (m + 1) ≠ "" :=
    fun m he => lineBreaks_succ_ne m (String.append_eq_empty_iff.mp he).2
  simp only [startSection, trimLineBreaks_append h, endingLineBreaks_append h]
  -- in each case the line breaks that are left and the gap make two
  match n with
  | 0 =>
    rw [Nat.zero_min, if_neg (hfilled 0 hne), @String.append_assoc body]
    rfl
  | 1 =>
    rw [Nat.min_eq_left (Nat.le_succ 1), if_neg (hfilled 1 (hbroken 0)), @String.append_assoc body]
    rfl
  | m + 2 =>
    rw [Nat.min_eq_right (Nat.le_add_left 2 m), if_neg (hfilled 2 (hbroken 1)),
      @String.append_assoc body]
    rfl

end

theorem startSection_of_ne {out : String} (hne : out ≠ "") (heading : String) :
    startSection out heading = settled out ++ "\n\n" ++ heading ++ "\n\n" := by
  obtain ⟨n, hn⟩ := eq_settled_append out
  have happend : settled out ++ lineBreaks n ≠ "" := fun he => hne (hn.trans he)
  rw [← startSection_append (settled_settled out) happend heading, ← hn]

theorem startSection_empty (heading : String) : startSection "" heading = heading ++ "\n\n" := by
  have htrim : trimLineBreaks "" = "" := by decide
  rw [startSection, htrim]
  simp

/-- **Sections stand apart by one blank line.** A heading behind the empty text opens it. Behind any
other text it stands after the settled text and two line breaks, so that what is taken from the text
is line breaks at its end, and two texts look the same in front of a heading just if they settle to
the same text. -/
theorem sections_stand_apart (out heading : String) :
    startSection out heading =
      (if out = "" then heading ++ "\n\n" else settled out ++ "\n\n" ++ heading ++ "\n\n") ∧
    Settled (settled out) ∧ (∃ n, out = settled out ++ lineBreaks n) ∧
    ∀ other, out ≠ "" → other ≠ "" →
      (startSection out heading = startSection other heading ↔ settled out = settled other) := by
  refine ⟨?_, settled_settled out, eq_settled_append out, ?_⟩
  · by_cases hempty : out = ""
    · rw [if_pos hempty, hempty, startSection_empty]
    · rw [if_neg hempty, startSection_of_ne hempty]
  · intro other hout hother
    rw [startSection_of_ne hout, startSection_of_ne hother, String.append_left_inj,
      String.append_left_inj, String.append_left_inj]

/-- Line breaks inside a text and in front of it stay. Line breaks at its end leave no trace, but
a text of nothing else is no empty text. -/
theorem breaks_at_end_forgotten :
    startSection "\n\na\n\n\nb" "## C" = startSection "\n\na\n\n\nb\n\n\n" "## C" ∧
    startSection "\n" "## C" = startSection "\n\n\n\n" "## C" ∧
    startSection "\n" "## C" = "\n\n## C\n\n" ∧ startSection "" "## C" = "## C\n\n" ∧
    startSection "a" "## C" ≠ startSection "a \n" "## C" := by
  obtain ⟨-, -, -, hinner⟩ := sections_stand_apart "\n\na\n\n\nb" "## C"
  obtain ⟨hbreak, -, -, hbreaks⟩ := sections_stand_apart "\n" "## C"
  obtain ⟨hempty, -⟩ := sections_stand_apart "" "## C"
  obtain ⟨-, -, -, hblank⟩ := sections_stand_apart "a" "## C"
  refine ⟨?_, ?_, hbreak, hempty, ?_⟩
  · exact (hinner "\n\na\n\n\nb\n\n\n" (by decide) (by decide)).mpr (by decide)
  · exact (hbreaks "\n\n\n\n" (by decide) (by decide)).mpr (by decide)
  · intro hsame
    exact absurd ((hblank "a \n" (by decide) (by decide)).mp hsame) (by decide)

end Reference
end GrammarSync
