/-
# What is read can be passed over

Passing over a value checks less than reading it: depths, sizes of numbers and
pairs of surrogates are left out. Where a value is read, passing over it
therefore leads to the same place, whichever reader took it: that of values
(`skipValue_of_readValue`), or those of the parts of a taxonomy.

Passing is one loop over a stack of open containers, reading a recursion over
values. What the loop does inside a value is independent of the containers
around it, and it takes no more steps than characters (`Passes`), so that it
can be followed value by value.

Key definitions: `Passes`, `PassesList`, `PassesObject`.
Key theorems: `skipChars_of_readChars`, `skipNumeral_of_readNumeral`,
`passes_of_readValue`, `skipValue_of_readValue`.
-/
import GrammarSync.Proofs.Stored
import GrammarSync.Taxonomy.Reader
import Mathlib.Data.List.DropRight
import Mathlib.Data.List.TakeWhile

namespace GrammarSync
namespace Json

/-! ### Strings -/

theorem skipChars_eq_drop (k : Nat) (cs : List Char) :
    skipChars k cs = skipChars 0 (cs.drop k) := by
  induction cs generalizing k with
  | nil => rw [List.drop_nil, skipChars, skipChars]
  | cons c rest ih =>
    cases k with
    | zero => rfl
    | succ k => rw [skipChars, ih, List.drop_succ_cons]

/-- A low half is an escape of its own. -/
theorem readLowSurrogate_ok {cs : List Char} {low : Nat} (h : readLowSurrogate cs = .ok low) :
    ∃ digits, cs = '\\' :: 'u' :: digits ∧ readHex digits = .ok low := by
  unfold readLowSurrogate at h
  split at h
  · cases h
  · cases h
  · rename_i digits
    obtain ⟨n, hhex, h⟩ := of_bind_eq_ok h
    split at h
    · obtain rfl := Except.ok.inj h
      exact ⟨digits, rfl, hhex⟩
    · cases h
  · cases h
  · cases h

/-- Passing over an escape leads to where reading it leads; over the halves of a pair one after
the other. -/
theorem skipEscape_of_readEscape {cs : List Char} {c : Char} {used : Nat}
    (h : readEscape cs = .ok (c, used)) :
    ∃ k, skipEscape cs = .ok k ∧ skipChars k cs = skipChars used cs := by
  unfold readEscape at h
  split at h
  · cases h
  · rename_i digits
    obtain ⟨n, hhex, h⟩ := of_bind_eq_ok h
    have hskip : skipEscape ('u' :: digits) = .ok 5 := by
      rw [skipEscape, hhex]
      rfl
    refine ⟨5, hskip, ?_⟩
    split at h
    · cases h
    · split at h
      · obtain ⟨low, hlow, h⟩ := of_bind_eq_ok h
        obtain ⟨-, rfl⟩ := Prod.mk.inj (Except.ok.inj h)
        obtain ⟨others, hothers, hhex'⟩ := readLowSurrogate_ok hlow
        have hskip' : skipEscape ('u' :: others) = .ok 5 := by
          rw [skipEscape, hhex']
          rfl
        have hdrop : digits.drop 10 = others.drop 4 := by
          rw [show (10 : Nat) = 4 + 6 from rfl, ← List.drop_drop, hothers]
          rfl
        calc skipChars 5 ('u' :: digits) = skipChars 0 (digits.drop 4) := skipChars_eq_drop 5 _
          _ = skipChars 0 ('\\' :: 'u' :: others) := by rw [hothers]
          _ = skipChars 5 ('u' :: others) := by
            rw [skipChars.eq_def]
            dsimp only
            rw [if_neg (by decide), if_pos rfl, hskip']
          _ = skipChars 0 (others.drop 4) := skipChars_eq_drop 5 _
          _ = skipChars 11 ('u' :: digits) := by
            rw [skipChars_eq_drop 11, List.drop_succ_cons, hdrop]
      · obtain ⟨-, rfl⟩ := Prod.mk.inj (Except.ok.inj h)
        rfl
  · rename_i d rest hu
    split at h
    · rename_i e hshort
      obtain ⟨-, rfl⟩ := Prod.mk.inj (Except.ok.inj h)
      refine ⟨1, ?_, rfl⟩
      rw [skipEscape, hshort]
      exact hu
    · cases h

theorem skipChars_of_readChars {cs ds rest : List Char} {k : Nat}
    (h : readChars k cs = .ok (ds, rest)) : skipChars k cs = .ok rest := by
  induction cs generalizing k ds with
  | nil => cases h
  | cons c tail ih =>
    cases k with
    | succ k =>
      rw [readChars] at h
      rw [skipChars]
      exact ih h
    | zero =>
      rw [readChars] at h
      rw [skipChars]
      by_cases hquote : c = '"'
      · rw [if_pos hquote] at h ⊢
        rw [(Prod.mk.inj (Except.ok.inj h)).2]
      by_cases hescape : c = '\\'
      · rw [if_neg hquote, if_pos hescape] at h ⊢
        cases hread : readEscape tail with
        | error e => rw [hread] at h; cases h
        | ok p =>
          obtain ⟨d, used⟩ := p
          rw [hread] at h
          dsimp only at h
          obtain ⟨k, hskip, hsame⟩ := skipEscape_of_readEscape hread
          rw [hskip]
          dsimp only
          rw [hsame]
          cases hchars : readChars used tail with
          | error e => rw [hchars] at h; cases h
          | ok q =>
            rw [hchars] at h
            obtain ⟨-, rfl⟩ := Prod.mk.inj (Except.ok.inj h)
            exact ih hchars
      by_cases hcontrol : c.toNat < 0x20
      · rw [if_neg hquote, if_neg hescape, if_pos hcontrol] at h
        cases h
      · rw [if_neg hquote, if_neg hescape, if_neg hcontrol] at h ⊢
        cases hchars : readChars 0 tail with
        | error e => rw [hchars] at h; cases h
        | ok q =>
          rw [hchars] at h
          obtain ⟨-, rfl⟩ := Prod.mk.inj (Except.ok.inj h)
          exact ih hchars

theorem skipString_of_readString {cs rest : List Char} {s : String}
    (h : readString cs = .ok (s, rest)) : skipString cs = .ok rest := by
  obtain ⟨⟨ds, left⟩, hchars, h⟩ := of_bind_eq_ok h
  obtain ⟨-, rfl⟩ := Prod.mk.inj (Except.ok.inj h)
  exact skipChars_of_readChars hchars

theorem skipChars_length_lt {cs rest : List Char} {k : Nat} (h : skipChars k cs = .ok rest) :
    rest.length < cs.length := by
  induction cs generalizing k with
  | nil => cases h
  | cons c tail ih =>
    rw [List.length_cons]
    rw [skipChars.eq_def] at h
    dsimp only at h
    split at h
    · have := ih h
      omega
    · split at h
      · rw [Except.ok.inj h]
        omega
      · split at h
        · split at h
          · cases h
          · have := ih h
            omega
        · split at h
          · cases h
          · have := ih h
            omega

/-! ### Numerals -/

theorem skipWhole_of_readWhole {cs ds rest : List Char} (h : readWhole cs = .ok (ds, rest)) :
    skipWhole cs = .ok rest := by
  cases cs with
  | nil => cases h
  | cons c tail =>
    rw [readWhole.eq_def] at h
    rw [skipWhole.eq_def]
    dsimp only at h ⊢
    by_cases hzero : c = '0'
    · rw [if_pos hzero] at h ⊢
      cases tail with
      | nil =>
        obtain ⟨-, rfl⟩ := Prod.mk.inj (Except.ok.inj h)
        rfl
      | cons d others =>
        dsimp only at h ⊢
        by_cases hdigit : isDigit d = true
        · rw [if_pos hdigit] at h
          cases h
        · rw [if_neg hdigit] at h ⊢
          obtain ⟨-, rfl⟩ := Prod.mk.inj (Except.ok.inj h)
          rfl
    · rw [if_neg hzero] at h ⊢
      by_cases hdigit : isDigit c = true
      · rw [if_pos hdigit] at h ⊢
        obtain ⟨-, rfl⟩ := Prod.mk.inj (Except.ok.inj h)
        rfl
      · rw [if_neg hdigit] at h
        cases h

theorem skipFraction_of_readFraction {cs rest : List Char} {ds : Option (List Char)}
    (h : readFraction cs = .ok (ds, rest)) : skipFraction cs = .ok rest := by
  unfold readFraction at h
  split at h
  · rename_i tail
    cases tail with
    | nil => cases h
    | cons c others =>
      rw [skipFraction]
      dsimp only at h
      by_cases hdigit : isDigit c = true
      · rw [if_pos hdigit] at h ⊢
        obtain ⟨-, rfl⟩ := Prod.mk.inj (Except.ok.inj h)
        rfl
      · rw [if_neg hdigit] at h
        cases h
  · rename_i hpoint
    obtain ⟨-, rfl⟩ := Prod.mk.inj (Except.ok.inj h)
    rw [skipFraction]
    exact hpoint

theorem skipExponent_of_readExponent {cs rest : List Char} {e : Option Exponent}
    (h : readExponent cs = .ok (e, rest)) : skipExponent cs = .ok rest := by
  cases cs with
  | nil =>
    obtain ⟨-, rfl⟩ := Prod.mk.inj (Except.ok.inj h)
    rfl
  | cons c tail =>
    rw [readExponent] at h
    rw [skipExponent]
    by_cases he : (c = 'e' || c = 'E') = true
    · rw [if_pos he] at h ⊢
      generalize readSign tail = sign at h ⊢
      obtain ⟨negative, digits⟩ := sign
      cases digits with
      | nil => cases h
      | cons d others =>
        dsimp only at h ⊢
        by_cases hdigit : isDigit d = true
        · rw [if_pos hdigit] at h ⊢
          obtain ⟨-, rfl⟩ := Prod.mk.inj (Except.ok.inj h)
          rfl
        · rw [if_neg hdigit] at h
          cases h
    · rw [if_neg he] at h ⊢
      obtain ⟨-, rfl⟩ := Prod.mk.inj (Except.ok.inj h)
      rfl

theorem skipNumeral_of_readNumeral {negative : Bool} {cs rest : List Char} {n : Numeral}
    (h : readNumeral negative cs = .ok (n, rest)) : skipNumeral cs = .ok rest := by
  obtain ⟨⟨whole, cs₁⟩, hwhole, h⟩ := of_bind_eq_ok h
  obtain ⟨⟨fraction, cs₂⟩, hfraction, h⟩ := of_bind_eq_ok h
  obtain ⟨⟨exponent, cs₃⟩, hexponent, h⟩ := of_bind_eq_ok h
  obtain ⟨-, rfl⟩ := Prod.mk.inj (Except.ok.inj h)
  rw [skipNumeral, skipWhole_of_readWhole hwhole]
  show (skipFraction cs₁ >>= _) = _
  rw [skipFraction_of_readFraction hfraction]
  exact skipExponent_of_readExponent hexponent

theorem skipWhole_length_lt {cs rest : List Char} (h : skipWhole cs = .ok rest) :
    rest.length < cs.length := by
  cases cs with
  | nil => cases h
  | cons c tail =>
    have hdigits := List.length_dropWhile_le isDigit tail
    rw [skipWhole.eq_def] at h
    dsimp only at h
    rw [List.length_cons]
    split at h
    · split at h
      · split at h
        · cases h
        · rw [Except.ok.inj h]
          omega
      · rw [← Except.ok.inj h]
        exact Nat.succ_pos _
    · split at h
      · rw [← Except.ok.inj h]
        omega
      · cases h

theorem skipFraction_length_le {cs rest : List Char} (h : skipFraction cs = .ok rest) :
    rest.length ≤ cs.length := by
  rw [skipFraction.eq_def] at h
  split at h
  · split at h
    · cases h
    · rename_i c tail
      have hdigits := List.length_dropWhile_le isDigit (c :: tail)
      split at h
      · rw [← Except.ok.inj h, List.length_cons]
        omega
      · cases h
  · rw [Except.ok.inj h]

theorem readSign_length_le (cs : List Char) : (readSign cs).2.length ≤ cs.length := by
  unfold readSign
  split
  · exact Nat.le_succ _
  · exact Nat.le_succ _
  · exact Nat.le_refl _

theorem skipExponent_length_le {cs rest : List Char} (h : skipExponent cs = .ok rest) :
    rest.length ≤ cs.length := by
  cases cs with
  | nil => rw [← Except.ok.inj h]
  | cons c tail =>
    have hsign := readSign_length_le tail
    have hdigits := List.length_dropWhile_le isDigit (readSign tail).2
    rw [skipExponent] at h
    split at h
    · dsimp only at h
      split at h
      · cases h
      · split at h
        · rw [← Except.ok.inj h, List.length_cons]
          omega
        · cases h
    · rw [Except.ok.inj h]

theorem skipNumeral_length_lt {cs rest : List Char} (h : skipNumeral cs = .ok rest) :
    rest.length < cs.length := by
  obtain ⟨cs₁, hwhole, h⟩ := of_bind_eq_ok h
  obtain ⟨cs₂, hfraction, h⟩ := of_bind_eq_ok h
  calc rest.length ≤ cs₂.length := skipExponent_length_le h
    _ ≤ cs₁.length := skipFraction_length_le hfraction
    _ < cs.length := skipWhole_length_lt hwhole

/-! ### The loop, value by value -/

/-- Passing leads from a place inside the containers `inner` to behind them, whatever encloses
them, in no more steps than there are characters between. -/
def Passes (place : Place) (inner : List Frame) (cs rest : List Char) : Prop :=
  ∃ used, used + rest.length ≤ cs.length ∧ ∀ more frames,
    skipFrom (used + (more + 1)) place (inner ++ frames) cs =
      skipFrom (more + 1) .behind frames rest

section Loop

variable {place place' : Place} {inner inner' : List Frame} {cs cs' rest : List Char}

theorem Passes.refl (cs : List Char) : Passes .behind [] cs cs :=
  ⟨0, by omega, fun more frames => by rw [Nat.zero_add, List.nil_append]⟩

/-- One step of the loop, which takes a character, and then others. -/
theorem Passes.step (hlen : cs'.length < cs.length)
    (hstep : ∀ steps frames, skipFrom (steps + 1) place (inner ++ frames) cs =
      skipFrom steps place' (inner' ++ frames) cs')
    (h : Passes place' inner' cs' rest) : Passes place inner cs rest := by
  obtain ⟨used, hused, hpass⟩ := h
  refine ⟨used + 1, by omega, fun more frames => ?_⟩
  rw [show used + 1 + (more + 1) = used + (more + 1) + 1 by omega, hstep, hpass]

/-- A value inside containers is passed first, then what follows it in them. -/
theorem Passes.trans {mid : List Char} (hvalue : Passes place [] cs mid)
    (hrest : Passes .behind inner mid rest) : Passes place inner cs rest := by
  obtain ⟨m, hm, hpass⟩ := hvalue
  obtain ⟨n, hn, hpass'⟩ := hrest
  refine ⟨m + n, by omega, fun more frames => ?_⟩
  calc skipFrom (m + n + (more + 1)) place (inner ++ frames) cs
    _ = skipFrom (m + (n + more + 1)) place ([] ++ (inner ++ frames)) cs := by
      rw [List.nil_append]
      congr 1
      omega
    _ = skipFrom (n + (more + 1)) .behind (inner ++ frames) mid := hpass _ _
    _ = skipFrom (more + 1) .behind frames rest := hpass' _ _

theorem skipBlanks_skipBlanks (cs : List Char) : skipBlanks (skipBlanks cs) = skipBlanks cs :=
  List.dropWhile_idempotent isBlank cs

theorem length_skipBlanks_le (cs : List Char) : (skipBlanks cs).length ≤ cs.length :=
  List.length_dropWhile_le isBlank cs

theorem length_lt_of_skipBlanks {c : Char} {tail : List Char} (h : skipBlanks cs = c :: tail) :
    tail.length < cs.length := by
  have hlen := length_skipBlanks_le cs
  rw [h, List.length_cons] at hlen
  exact hlen

/-- Blanks in front of a value do not matter. -/
theorem Passes.of_skipBlanks (h : Passes .value inner (skipBlanks cs) rest) :
    Passes .value inner cs rest := by
  obtain ⟨used, hused, hpass⟩ := h
  have hlen := length_skipBlanks_le cs
  refine ⟨used, by omega, fun more frames => ?_⟩
  rw [← hpass, ← Nat.add_assoc, skipFrom, skipFrom, skipBlanks_skipBlanks]

/-! #### Lists -/

theorem skipBlanks_of_nextItem_stop {first : Bool} (h : nextItem first cs = .ok (.stop rest)) :
    skipBlanks cs = ']' :: rest := by
  rw [nextItem] at h
  cases hcs : skipBlanks cs with
  | nil => rw [hcs] at h; cases h
  | cons c tail =>
    rw [hcs] at h
    dsimp only at h
    by_cases hclose : c = ']'
    · rw [if_pos hclose] at h
      rw [hclose, Step.stop.inj (Except.ok.inj h)]
    rw [if_neg hclose] at h
    split at h
    · cases h
    · split at h
      · split at h
        · cases h
        · split at h <;> cases h
      · cases h

/-- A further item starts where the list does, or behind a comma. -/
theorem skipBlanks_of_nextItem_more {first : Bool} {item : List Char}
    (h : nextItem first cs = .ok (.more item)) :
    ∃ d others, item = d :: others ∧ d ≠ ']' ∧
      if first then skipBlanks cs = item
      else ∃ tail, skipBlanks cs = ',' :: tail ∧ skipBlanks tail = item := by
  rw [nextItem] at h
  cases hcs : skipBlanks cs with
  | nil => rw [hcs] at h; cases h
  | cons c tail =>
    rw [hcs] at h
    dsimp only at h
    by_cases hclose : c = ']'
    · rw [if_pos hclose] at h
      cases h
    rw [if_neg hclose] at h
    cases first with
    | true =>
      have hitem := Step.more.inj (Except.ok.inj h)
      exact ⟨c, tail, hitem.symm, hclose, hitem⟩
    | false =>
      by_cases hcomma : c = ','
      · rw [if_neg Bool.false_ne_true, if_pos hcomma] at h
        cases htail : skipBlanks tail with
        | nil => rw [htail] at h; cases h
        | cons d others =>
          rw [htail] at h
          dsimp only at h
          by_cases hend : d = ']'
          · rw [if_pos hend] at h
            cases h
          · rw [if_neg hend] at h
            have hitem := Step.more.inj (Except.ok.inj h)
            exact ⟨d, others, hitem.symm, hend, tail, by rw [hcomma], by rw [htail, hitem]⟩
      · rw [if_neg Bool.false_ne_true, if_neg hcomma] at h
        cases h

/-- From inside a list, in front of its first item or behind an item, passing leads to behind the
list. -/
def PassesList (first : Bool) (cs rest : List Char) : Prop :=
  if first then ∀ start, skipBlanks start = '[' :: cs → Passes .value [] start rest
  else Passes .behind [.list] cs rest

theorem PassesList.stop {first : Bool} (h : nextItem first cs = .ok (.stop rest)) :
    PassesList first cs rest := by
  have hclose := skipBlanks_of_nextItem_stop h
  have hlen := length_lt_of_skipBlanks hclose
  cases first with
  | true =>
    intro start hstart
    have hlen' := length_lt_of_skipBlanks hstart
    refine .step (by omega) (fun steps frames => ?_) (.refl rest)
    rw [skipFrom, hstart]
    simp [hclose, isDigit]
  | false =>
    refine Passes.step hlen (fun steps frames => ?_) (.refl rest)
    rw [List.singleton_append, skipFrom, hclose]
    simp

theorem PassesList.more {first : Bool} {item behind : List Char}
    (h : nextItem first cs = .ok (.more item)) (hitem : Passes .value [] item behind)
    (hrest : PassesList false behind rest) : PassesList first cs rest := by
  obtain ⟨d, others, rfl, hd, hplace⟩ := skipBlanks_of_nextItem_more h
  have hpass : Passes .value [.list] (d :: others) rest := hitem.trans hrest
  cases first with
  | true =>
    intro start hstart
    have hlen := length_lt_of_skipBlanks hstart
    have hlen' := length_skipBlanks_le cs
    rw [if_pos rfl] at hplace
    rw [hplace] at hlen'
    refine .step (by omega) (fun steps frames => ?_) hpass
    rw [skipFrom, hstart]
    simp [hplace, hd, isDigit]
  | false =>
    obtain ⟨tail, hcomma, htail⟩ := hplace
    rw [← htail] at hpass
    refine Passes.step (length_lt_of_skipBlanks hcomma) (fun steps frames => ?_) hpass.of_skipBlanks
    rw [List.singleton_append, skipFrom, hcomma]
    simp

/-! #### Objects -/

theorem skipBlanks_of_nextKey_stop {first : Bool} (h : nextKey first cs = .ok (.stop rest)) :
    skipBlanks cs = '\x7d' :: rest := by
  rw [nextKey] at h
  cases hcs : skipBlanks cs with
  | nil => rw [hcs] at h; cases h
  | cons c tail =>
    rw [hcs] at h
    dsimp only at h
    by_cases hclose : c = '\x7d'
    · rw [if_pos hclose] at h
      rw [hclose, Step.stop.inj (Except.ok.inj h)]
    rw [if_neg hclose] at h
    split at h
    · split at h <;> cases h
    · split at h
      · split at h
        · cases h
        · split at h
          · cases h
          · split at h <;> cases h
      · cases h

/-- A further member starts where the object does, or behind a comma. -/
theorem skipBlanks_of_nextKey_more {first : Bool} {member : List Char}
    (h : nextKey first cs = .ok (.more member)) :
    if first then skipBlanks cs = '"' :: member
    else ∃ tail, skipBlanks cs = ',' :: tail ∧ skipBlanks tail = '"' :: member := by
  rw [nextKey] at h
  cases hcs : skipBlanks cs with
  | nil => rw [hcs] at h; cases h
  | cons c tail =>
    rw [hcs] at h
    dsimp only at h
    by_cases hclose : c = '\x7d'
    · rw [if_pos hclose] at h
      cases h
    rw [if_neg hclose] at h
    cases first with
    | true =>
      rw [if_pos rfl] at h ⊢
      by_cases hquote : c = '"'
      · rw [if_pos hquote] at h
        rw [hquote, Step.more.inj (Except.ok.inj h)]
      · rw [if_neg hquote] at h
        cases h
    | false =>
      rw [if_neg Bool.false_ne_true] at h ⊢
      by_cases hcomma : c = ','
      · rw [if_pos hcomma] at h
        cases htail : skipBlanks tail with
        | nil => rw [htail] at h; cases h
        | cons d others =>
          rw [htail] at h
          dsimp only at h
          by_cases hquote : d = '"'
          · rw [if_pos hquote] at h
            exact ⟨tail, by rw [hcomma], by rw [htail, hquote, Step.more.inj (Except.ok.inj h)]⟩
          · rw [if_neg hquote] at h
            split at h <;> cases h
      · rw [if_neg hcomma] at h
        cases h

/-- From inside an object, in front of its first member or behind a member, passing leads to
behind the object. -/
def PassesObject (first : Bool) (cs rest : List Char) : Prop :=
  if first then ∀ start, skipBlanks start = '\x7b' :: cs → Passes .value [] start rest
  else Passes .behind [.object] cs rest

theorem PassesObject.stop {first : Bool} (h : nextKey first cs = .ok (.stop rest)) :
    PassesObject first cs rest := by
  have hclose := skipBlanks_of_nextKey_stop h
  have hlen := length_lt_of_skipBlanks hclose
  cases first with
  | true =>
    intro start hstart
    have hlen' := length_lt_of_skipBlanks hstart
    refine .step (by omega) (fun steps frames => ?_) (.refl rest)
    rw [skipFrom, hstart]
    simp [hclose, isDigit]
  | false =>
    refine Passes.step hlen (fun steps frames => ?_) (.refl rest)
    rw [List.singleton_append, skipFrom, hclose]
    simp

theorem readColon_length_lt (h : readColon cs = .ok rest) : rest.length < cs.length := by
  rw [readColon] at h
  cases hcs : skipBlanks cs with
  | nil => rw [hcs] at h; cases h
  | cons c tail =>
    rw [hcs] at h
    dsimp only at h
    split at h
    · rw [← Except.ok.inj h]
      exact length_lt_of_skipBlanks hcs
    · cases h

/-- A key is passed over as a string. -/
theorem Passes.key {key : String} {member colon value : List Char}
    (hcs : skipBlanks cs = '"' :: member) (hkey : readString member = .ok (key, colon))
    (hcolon : readColon colon = .ok value) (h : Passes .value [.object] value rest) :
    Passes .key [.object] cs rest := by
  have hskip := skipString_of_readString hkey
  have hlen : value.length < cs.length := by
    have := length_lt_of_skipBlanks hcs
    have := skipChars_length_lt hskip
    have := readColon_length_lt hcolon
    omega
  refine .step hlen (fun steps frames => ?_) h
  rw [skipFrom, hcs]
  simp [hskip, hcolon]

theorem PassesObject.more {first : Bool} {key : String} {member colon value behind : List Char}
    (h : nextKey first cs = .ok (.more member)) (hkey : readString member = .ok (key, colon))
    (hcolon : readColon colon = .ok value) (hvalue : Passes .value [] value behind)
    (hrest : PassesObject false behind rest) : PassesObject first cs rest := by
  have hpass : Passes .value [.object] value rest := hvalue.trans hrest
  have hplace := skipBlanks_of_nextKey_more h
  cases first with
  | true =>
    intro start hstart
    rw [if_pos rfl] at hplace
    have hblanks : skipBlanks ('"' :: member) = '"' :: member := skipBlanks_of_not (by decide) _
    have hlen := length_lt_of_skipBlanks hstart
    have hlen' := length_skipBlanks_le cs
    rw [hplace] at hlen'
    refine .step (by omega) (fun steps frames => ?_) (Passes.key hblanks hkey hcolon hpass)
    rw [skipFrom, hstart]
    simp [hplace, isDigit]
  | false =>
    obtain ⟨tail, hcomma, htail⟩ := hplace
    refine Passes.step (length_lt_of_skipBlanks hcomma) (fun steps frames => ?_)
      (Passes.key htail hkey hcolon hpass)
    rw [List.singleton_append, skipFrom, hcomma]
    simp

end Loop

/-! ### Values -/

theorem readWord_length_le {letters cs rest : List Char} (h : readWord letters cs = .ok rest) :
    rest.length ≤ cs.length := by
  induction letters generalizing cs with
  | nil => rw [Except.ok.inj h]
  | cons e es ih =>
    cases cs with
    | nil => cases h
    | cons c cs =>
      rw [readWord] at h
      split at h
      · exact Nat.le_succ_of_le (ih h)
      · cases h

/-- A value that is one token is passed over in one step. -/
theorem Passes.token {cs rest tail : List Char} {c : Char} (hcs : skipBlanks cs = c :: tail)
    (hlen : rest.length < (c :: tail).length)
    (hstep : ∀ steps frames, skipFrom (steps + 1) .value frames cs =
      skipFrom steps .behind frames rest) : Passes .value [] cs rest := by
  have hblanks := length_skipBlanks_le cs
  rw [hcs] at hblanks
  refine .step (by omega) ?_ (.refl rest)
  exact hstep

/-- What is passed over of items and members is passed over of values with them. -/
theorem ValueRead.passes {steps depth : Nat} {cs rest : List Char} {v : Json}
    (h : ValueRead steps depth rest (skipBlanks cs) v)
    (hitems : ∀ k tail items, readItems steps k true tail = .ok (items, rest) →
      PassesList true tail rest)
    (hmembers : ∀ k tail members, readMembers steps k true tail = .ok (members, rest) →
      PassesObject true tail rest) : Passes .value [] cs rest := by
  generalize hcs : skipBlanks cs = text at h
  cases h with
  | null hword =>
    refine .token hcs (Nat.lt_succ_of_le (readWord_length_le hword)) fun steps frames => ?_
    rw [skipFrom, hcs]
    simp [hword]
  | trueWord hword =>
    refine .token hcs (Nat.lt_succ_of_le (readWord_length_le hword)) fun steps frames => ?_
    rw [skipFrom, hcs]
    simp [hword]
  | falseWord hword =>
    refine .token hcs (Nat.lt_succ_of_le (readWord_length_le hword)) fun steps frames => ?_
    rw [skipFrom, hcs]
    simp [hword]
  | string hstring =>
    have hskip := skipString_of_readString hstring
    refine .token hcs (Nat.lt_succ_of_lt (skipChars_length_lt hskip)) fun steps frames => ?_
    rw [skipFrom, hcs]
    simp [hskip]
  | negative hnumber =>
    obtain ⟨n, hnumeral, -⟩ := readNumber_ok hnumber
    have hskip := skipNumeral_of_readNumeral hnumeral
    refine .token hcs (Nat.lt_succ_of_lt (skipNumeral_length_lt hskip)) fun steps frames => ?_
    rw [skipFrom, hcs]
    simp [hskip]
  | number hdigit hnumber =>
    obtain ⟨n, hnumeral, -⟩ := readNumber_ok hnumber
    have hskip := skipNumeral_of_readNumeral hnumeral
    refine .token hcs (skipNumeral_length_lt hskip) fun steps frames => ?_
    rw [skipFrom, hcs]
    rename_i c tail x
    have hne : ∀ d, isDigit d = false → c ≠ d := by
      rintro d hd rfl
      rw [hdigit] at hd
      cases hd
    simp [hne 'n' rfl, hne 't' rfl, hne 'f' rfl, hne '"' rfl, hne '-' rfl, hdigit, hskip]
  | array _ hread => exact hitems _ _ _ hread cs hcs
  | object _ hread => exact hmembers _ _ _ hread cs hcs

/-- Whatever is read of a value, of items or of members is passed over to the same place. -/
theorem passes_of_read (steps : Nat) :
    (∀ depth cs v rest, readValue steps depth cs = .ok (v, rest) → Passes .value [] cs rest) ∧
    (∀ depth first cs items rest, readItems steps depth first cs = .ok (items, rest) →
      PassesList first cs rest) ∧
    (∀ depth first cs members rest, readMembers steps depth first cs = .ok (members, rest) →
      PassesObject first cs rest) := by
  induction steps with
  | zero =>
    refine ⟨fun depth cs v rest h => ?_, fun depth first cs items rest h => ?_,
      fun depth first cs members rest h => ?_⟩
    · rw [readValue] at h; cases h
    · rw [readItems] at h; cases h
    · rw [readMembers] at h; cases h
  | succ steps ih =>
    obtain ⟨hvalue, hitems, hmembers⟩ := ih
    refine ⟨fun depth cs v rest h => ?_, fun depth first cs items rest h => ?_,
      fun depth first cs members rest h => ?_⟩
    · exact (readValue_ok h).passes (fun k tail items => hitems k true tail items rest)
        (fun k tail members => hmembers k true tail members rest)
    · rcases readItems_ok h with ⟨hstop, -⟩ | ⟨inner, v, left, others, hmore, -, hv, hothers⟩
      · exact .stop hstop
      · exact .more hmore (hvalue _ _ _ _ hv) (hitems _ _ _ _ _ hothers)
    · rcases readMembers_ok h with ⟨hstop, -⟩ |
        ⟨member, key, colon, value, v, left, others, hmore, hkey, hcolon, -, hv, hothers⟩
      · exact .stop hstop
      · exact .more hmore hkey hcolon (hvalue _ _ _ _ hv) (hmembers _ _ _ _ _ hothers)

theorem passes_of_readValue {steps depth : Nat} {cs rest : List Char} {v : Json}
    (h : readValue steps depth cs = .ok (v, rest)) : Passes .value [] cs rest :=
  (passes_of_read steps).1 depth cs v rest h

/-- A value that can be passed in as many steps as it has characters is passed over. -/
theorem Passes.skipValue {cs rest : List Char} (h : Passes .value [] cs rest) :
    skipValue cs = .ok rest := by
  obtain ⟨used, hused, hpass⟩ := h
  have hsteps : stepsFor cs = used + ((2 * cs.length + 1 - used) + 1) := by
    rw [stepsFor]
    omega
  rw [Json.skipValue, hsteps]
  exact hpass _ []

/-- A value that is read is passed over to the same place. -/
theorem skipValue_of_readValue {steps depth : Nat} {cs rest : List Char} {v : Json}
    (h : readValue steps depth cs = .ok (v, rest)) : skipValue cs = .ok rest :=
  (passes_of_readValue h).skipValue

end Json

/-! ### The parts of a taxonomy -/

namespace Taxonomy

open Json

theorem of_lift_eq_ok {α : Type} {x : Checked α} {a : α} (h : lift x = .ok a) : x = .ok a := by
  cases x with
  | error e => cases h
  | ok b => rw [Except.ok.inj h]

theorem enter_ok {wanted : Wanted} {opening : Char} {cs rest : List Char}
    (h : enter wanted opening cs = .ok rest) : skipBlanks cs = opening :: rest := by
  rw [enter] at h
  cases hcs : skipBlanks cs with
  | nil => rw [hcs] at h; cases h
  | cons c tail =>
    rw [hcs] at h
    dsimp only at h
    split at h
    · rename_i hc
      rw [hc, Except.ok.inj h]
    · cases h

variable {cs rest : List Char}

theorem passes_of_readText {w : String} (h : readText cs = .ok (w, rest)) :
    Passes .value [] cs rest := by
  obtain ⟨tail, henter, h⟩ := of_bind_eq_ok h
  have hcs := enter_ok henter
  have hskip := skipString_of_readString (of_lift_eq_ok h)
  refine .token hcs (Nat.lt_succ_of_lt (skipChars_length_lt hskip)) fun steps frames => ?_
  rw [skipFrom, hcs]
  simp [hskip]

theorem passesList_of_readTextItems {steps : Nat} {first : Bool} {ws : List String}
    (h : readTextItems steps first cs = .ok (ws, rest)) : PassesList first cs rest := by
  induction steps generalizing first cs ws with
  | zero => cases h
  | succ steps ih =>
    obtain ⟨step, hstep, h⟩ := of_bind_eq_ok h
    have hstep := of_lift_eq_ok hstep
    cases step with
    | stop left =>
      obtain ⟨-, rfl⟩ := Prod.mk.inj (Except.ok.inj h)
      exact .stop hstep
    | more item =>
      obtain ⟨⟨w, behind⟩, hw, h⟩ := of_bind_eq_ok h
      obtain ⟨⟨others, left⟩, hothers, h⟩ := of_bind_eq_ok h
      obtain ⟨-, rfl⟩ := Prod.mk.inj (Except.ok.inj h)
      exact .more hstep (passes_of_readText hw) (ih hothers)

theorem passes_of_readTexts {ws : List String} (h : readTexts cs = .ok (ws, rest)) :
    Passes .value [] cs rest := by
  obtain ⟨tail, henter, h⟩ := of_bind_eq_ok h
  exact passesList_of_readTextItems h cs (enter_ok henter)

theorem passesObject_of_readCategoryMembers {steps : Nat} {first : Bool}
    {categories : List (String × List String)}
    (h : readCategoryMembers steps first cs = .ok (categories, rest)) :
    PassesObject first cs rest := by
  induction steps generalizing first cs categories with
  | zero => cases h
  | succ steps ih =>
    obtain ⟨step, hstep, h⟩ := of_bind_eq_ok h
    have hstep := of_lift_eq_ok hstep
    cases step with
    | stop left =>
      obtain ⟨-, rfl⟩ := Prod.mk.inj (Except.ok.inj h)
      exact .stop hstep
    | more member =>
      obtain ⟨⟨name, colon⟩, hname, h⟩ := of_bind_eq_ok h
      obtain ⟨value, hcolon, h⟩ := of_bind_eq_ok h
      obtain ⟨⟨ws, behind⟩, hws, h⟩ := of_bind_eq_ok h
      obtain ⟨⟨others, left⟩, hothers, h⟩ := of_bind_eq_ok h
      obtain ⟨-, rfl⟩ := Prod.mk.inj (Except.ok.inj h)
      exact .more hstep (of_lift_eq_ok hname) (of_lift_eq_ok hcolon) (passes_of_readTexts hws)
        (ih hothers)

theorem passes_of_readCategories {categories : WordMap (List String)}
    (h : readCategories cs = .ok (categories, rest)) : Passes .value [] cs rest := by
  obtain ⟨tail, henter, h⟩ := of_bind_eq_ok h
  obtain ⟨⟨members, left⟩, hmembers, h⟩ := of_bind_eq_ok h
  obtain ⟨-, rfl⟩ := Prod.mk.inj (Except.ok.inj h)
  exact passesObject_of_readCategoryMembers hmembers cs (enter_ok henter)

theorem passesObject_of_readEntries {steps : Nat} {first : Bool}
    {entries : List (String × ContextualEntry)}
    (h : readEntries steps first cs = .ok (entries, rest)) : PassesObject first cs rest := by
  induction steps generalizing first cs entries with
  | zero => cases h
  | succ steps ih =>
    obtain ⟨step, hstep, h⟩ := of_bind_eq_ok h
    have hstep := of_lift_eq_ok hstep
    cases step with
    | stop left =>
      obtain ⟨-, rfl⟩ := Prod.mk.inj (Except.ok.inj h)
      exact .stop hstep
    | more member =>
      obtain ⟨⟨name, colon⟩, hname, h⟩ := of_bind_eq_ok h
      obtain ⟨value, hcolon, h⟩ := of_bind_eq_ok h
      obtain ⟨⟨v, behind⟩, hv, h⟩ := of_bind_eq_ok h
      dsimp only at h
      cases hentry : ContextualEntry.ofJson? v with
      | none => rw [hentry] at h; cases h
      | some entry =>
        rw [hentry] at h
        obtain ⟨⟨others, left⟩, hothers, h⟩ := of_bind_eq_ok h
        obtain ⟨-, rfl⟩ := Prod.mk.inj (Except.ok.inj h)
        exact .more hstep (of_lift_eq_ok hname) (of_lift_eq_ok hcolon)
          (passes_of_readValue (of_lift_eq_ok hv)) (ih hothers)

theorem passes_of_readContextual {entries : WordMap ContextualEntry}
    (h : readContextual cs = .ok (entries, rest)) : Passes .value [] cs rest := by
  obtain ⟨tail, henter, h⟩ := of_bind_eq_ok h
  obtain ⟨⟨members, left⟩, hmembers, h⟩ := of_bind_eq_ok h
  obtain ⟨-, rfl⟩ := Prod.mk.inj (Except.ok.inj h)
  exact passesObject_of_readEntries hmembers cs (enter_ok henter)

/-- The value of a field that is read is passed over to the same place. -/
theorem skipValue_of_readField {behind : List Char → List Char} {d d' : Draft} {f : Field}
    (h : readField behind d f cs = .ok (d', rest)) : skipValue cs = .ok rest := by
  refine Passes.skipValue ?_
  cases f with
  | version =>
    obtain ⟨⟨v, left⟩, hv, h⟩ := of_bind_eq_ok h
    dsimp only at h
    cases hversion : Version.ofJson? v with
    | none => rw [hversion] at h; cases h
    | some version =>
      rw [hversion] at h
      obtain ⟨-, rfl⟩ := Prod.mk.inj (Except.ok.inj h)
      exact passes_of_readValue (of_lift_eq_ok hv)
  | keywords =>
    obtain ⟨⟨categories, left⟩, hread, h⟩ := of_bind_eq_ok h
    obtain ⟨-, rfl⟩ := Prod.mk.inj (Except.ok.inj h)
    exact passes_of_readCategories hread
  | types =>
    obtain ⟨⟨categories, left⟩, hread, h⟩ := of_bind_eq_ok h
    obtain ⟨-, rfl⟩ := Prod.mk.inj (Except.ok.inj h)
    exact passes_of_readCategories hread
  | contextual =>
    obtain ⟨⟨entries, left⟩, hread, h⟩ := of_bind_eq_ok h
    obtain ⟨-, rfl⟩ := Prod.mk.inj (Except.ok.inj h)
    exact passes_of_readContextual hread
  | allKeywords =>
    obtain ⟨⟨words, left⟩, hread, h⟩ := of_bind_eq_ok h
    obtain ⟨-, rfl⟩ := Prod.mk.inj (Except.ok.inj h)
    exact passes_of_readTexts hread

end Taxonomy
end GrammarSync
