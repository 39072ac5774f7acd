/-
# Writing a file that is there

Writing a file that can be read puts the text in the place of its content and
leaves all else as it was: no path leads elsewhere than before, because a file
stays a file (`locate_put`). So the file is read back as it was written
(`read_write`), what stands at other places is read as before
(`entry_write_other`), and writing the same text again changes nothing
(`write_write`).

Key theorems: `fromUTF8?_toUTF8`, `walk_put`, `write_of_read`, `read_write`,
`entry_write_other`, `write_write`.
-/
import GrammarSync.Command.Files
import Mathlib.Data.List.Basic

namespace GrammarSync

/-- A text is read back from its bytes. -/
theorem fromUTF8?_toUTF8 (s : String) : String.fromUTF8? s.toUTF8 = some s := by
  have hvalid : s.toUTF8.IsValidUTF8 := s.isValidUTF8
  rw [String.fromUTF8?, dif_pos hvalid]
  rfl

namespace Files

variable {files files' : Files} {place : Location}

/-! ### Entries -/

theorem entryAt?_put_self (h : isGiven place = false) (e : Entry) :
    (files.put place e).entryAt? place = some e := by
  rw [entryAt?, h, put]
  exact List.lookup_cons_self

theorem entryAt?_put_of_ne {other : Location} (h : other ≠ place) (e : Entry) :
    (files.put place e).entryAt? other = files.entryAt? other := by
  have hlookup : (files.entries.filter (·.1 ≠ place)).lookup other =
      files.entries.lookup other := by
    induction files.entries with
    | nil => rfl
    | cons d rest ih =>
      by_cases hd : d.1 = place
      · have hskip : (other == d.1) = false := by
          rw [beq_eq_false_iff_ne, hd]
          exact h
        rw [List.filter_cons_of_neg (by simpa using hd), List.lookup_cons, hskip, ih]
      · rw [List.filter_cons_of_pos (by simpa using hd), List.lookup_cons, List.lookup_cons, ih]
  rw [entryAt?, entryAt?, put, List.lookup_cons, beq_eq_false_iff_ne.mpr h, hlookup]

theorem isGiven_of_file {content : ByteArray} {r w : Option FileFault}
    (h : files.entryAt? place = some (.file content r w)) : isGiven place = false := by
  by_contra hgiven
  rw [entryAt?, if_pos (by simpa using hgiven)] at h
  cases h

/-- Ways lead where they did before as long as a file stays a file. -/
theorem walk_put {content content' : ByteArray} {r w r' w' : Option FileFault}
    (h : files.entryAt? place = some (.file content r w)) :
    ∀ (names : List String) (start : Location),
      (files.put place (.file content' r' w')).walk start names = files.walk start names := by
  intro names
  induction names with
  | nil => exact fun start => rfl
  | cons name names ih =>
    intro start
    by_cases hstart : start = place
    · rw [walk, walk, hstart, entryAt?_put_self (isGiven_of_file h), h]
    · rw [walk, walk, entryAt?_put_of_ne hstart]
      cases files.entryAt? start with
      | none => rfl
      | some e =>
        cases e with
        | directory => exact ih _
        | file content r w => rfl

theorem locate_put {content content' : ByteArray} {r w r' w' : Option FileFault}
    (h : files.entryAt? place = some (.file content r w)) (path : String) :
    (files.put place (.file content' r' w')).locate path = files.locate path := by
  rw [locate, locate, walk_put h]

theorem put_put (e : Entry) : (files.put place e).put place e = files.put place e := by
  rw [put, put]
  simp

/-! ### Reading and writing -/

/-- A path whose file can be read leads to that file. -/
theorem of_read {path text : String} (h : files.read path = .ok text) :
    ∃ place content w, files.locate path = .ok place ∧
      files.entryAt? place = some (.file content none w) ∧
      String.fromUTF8? content = some text := by
  unfold read entry at h
  cases hplace : files.locate path with
  | error e => rw [hplace] at h; cases h
  | ok place =>
    rw [hplace] at h
    dsimp only at h
    cases hentry : files.entryAt? place with
    | none => rw [hentry] at h; cases h
    | some e =>
      rw [hentry] at h
      cases e with
      | directory => cases h
      | file content r w =>
        cases r with
        | some fault => cases h
        | none =>
          dsimp only at h
          cases htext : String.fromUTF8? content with
          | none => rw [htext] at h; cases h
          | some own =>
            rw [htext] at h
            exact ⟨place, content, w, rfl, hentry, by rw [htext, Except.ok.inj h]⟩

theorem read_of_file {path text : String} {content : ByteArray} {w : Option FileFault}
    (hplace : files.locate path = .ok place)
    (hentry : files.entryAt? place = some (.file content none w))
    (htext : String.fromUTF8? content = some text) : files.read path = .ok text := by
  rw [read, entry, hplace]
  simp only [hentry, htext]

theorem present_of_read {path text : String} (h : files.read path = .ok text) :
    files.present path = true := by
  rw [present]
  unfold read at h
  cases hentry : files.entry path with
  | error e => rw [hentry] at h; cases h
  | ok e => rfl

/-- Writing a file that can be read puts the text in the place of its content. -/
theorem write_of_read {path text new : String} (hread : files.read path = .ok text)
    (hwrite : files.write path new = .ok files') :
    ∃ place content, files.locate path = .ok place ∧
      files.entryAt? place = some (.file content none none) ∧
      files' = files.put place (.file new.toUTF8 none none) := by
  obtain ⟨place, content, w, hplace, hentry, -⟩ := of_read hread
  rw [write, hplace] at hwrite
  dsimp only at hwrite
  rw [store, hentry] at hwrite
  cases w with
  | some fault => cases hwrite
  | none => exact ⟨place, content, hplace, hentry, (Except.ok.inj hwrite).symm⟩

/-- What was written is read. -/
theorem read_write {path text new : String} (hread : files.read path = .ok text)
    (hwrite : files.write path new = .ok files') : files'.read path = .ok new := by
  obtain ⟨place, content, hplace, hentry, rfl⟩ := write_of_read hread hwrite
  have hlocate : (files.put place (.file new.toUTF8 none none)).locate path = .ok place :=
    (locate_put hentry path).trans hplace
  have hself : (files.put place (.file new.toUTF8 none none)).entryAt? place =
      some (.file new.toUTF8 none none) := entryAt?_put_self (isGiven_of_file hentry) _
  exact read_of_file hlocate hself (fromUTF8?_toUTF8 new)

/-- Writing the same text again changes nothing. -/
theorem write_write {path text new : String} (hread : files.read path = .ok text)
    (hwrite : files.write path new = .ok files') : files'.write path new = .ok files' := by
  obtain ⟨place, content, hplace, hentry, rfl⟩ := write_of_read hread hwrite
  have hlocate : (files.put place (.file new.toUTF8 none none)).locate path = .ok place :=
    (locate_put hentry path).trans hplace
  rw [write, hlocate]
  dsimp only
  rw [store, entryAt?_put_self (isGiven_of_file hentry)]
  dsimp only
  rw [put_put]

/-- What stands at another place is as it was. -/
theorem entry_write_other {path other text new : String} (hread : files.read path = .ok text)
    (hwrite : files.write path new = .ok files') (h : files.locate other ≠ files.locate path) :
    files'.entry other = files.entry other := by
  obtain ⟨place, content, hplace, hentry, rfl⟩ := write_of_read hread hwrite
  rw [entry, entry, locate_put hentry]
  cases hother : files.locate other with
  | error e => rfl
  | ok elsewhere =>
    have hne : elsewhere ≠ place := by
      rintro rfl
      exact h (hother.trans hplace.symm)
    dsimp only
    rw [entryAt?_put_of_ne hne]

end Files
end GrammarSync
