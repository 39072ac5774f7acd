/-
# Every include is resolved once

An include of the grammar itself is a reference `#k`; it dangles if the
grammar has no section `k`. The structural checks meet every node of the
grammar once, in document order (`DocumentOrder`): those of the top sequence,
and those of a section from the section's own node on. What they report of
includes is therefore the list of the nodes with a dangling include, in this
order (`Lint.exists_listing_danglingAt?`), and nothing else is reported but a
scope name that is not the one expected, and shadowed patterns.

Key definitions: `Issue.isShadowed`, `Document.DanglesAt`.
Key theorems: `Lint.unresolved?_eq_some`, `Lint.filter_lint`,
`Lint.exists_listing_danglingAt?`, `includes_are_resolved`.
-/
import GrammarSync.Proofs.DocumentOrder
import GrammarSync.Scope.Hew

namespace GrammarSync

/-- Whether an issue is about a shadowed pattern. -/
def Issue.isShadowed : Issue → Bool
  | .shadowedByCatchAll .. => true
  | _ => false

/-- At the end of a way stands a node whose include dangles; the issue says so. -/
def Document.DanglesAt (d : Document) (way : List Nat) (issue : Issue) : Prop :=
  ∃ label n name, d.at? way = some (label, n) ∧ n.include? = some ("#" ++ name) ∧
    name ∉ Entries.keys d.repository ∧ issue = .unresolvedInclude label ("#" ++ name)

namespace Lint

variable {d : Document}

/-! ### References to the grammar itself -/

theorem includedSection?_eq_some {reference name : String} :
    includedSection? reference = some name ↔ reference = "#" ++ name := by
  have hchars : reference = "#" ++ name ↔ reference.toList = '#' :: name.toList := by
    rw [← String.toList_inj, String.toList_append]
    rfl
  rw [hchars, includedSection?]
  split
  · rename_i cs heq
    rw [heq, Option.some.injEq, List.cons.injEq, ← String.toList_inj, String.toList_ofList]
    simp
  · rename_i hnot
    constructor
    · exact nofun
    · intro heq
      exact absurd heq (hnot _)

/-- A reported reference is the node's include, names a section of the grammar, and there is none. -/
theorem unresolved?_eq_some {n : Node} {reference : String} :
    unresolved? d n = some reference ↔ ∃ name, n.include? = some ("#" ++ name) ∧
      name ∉ Entries.keys d.repository ∧ reference = "#" ++ name := by
  have hmissing : ∀ name, (d.section? name).isNone ↔ name ∉ Entries.keys d.repository := by
    intro name
    rw [Option.isNone_iff_eq_none, Document.section?, Entries.lookup_eq_none_iff]
  constructor
  · intro h
    unfold unresolved? at h
    cases hinclude : n.include? with
    | none => simp [hinclude] at h
    | some target =>
      cases hsection : includedSection? target with
      | none => simp [hinclude, hsection] at h
      | some name =>
        obtain ⟨hnone, rfl⟩ : (d.section? name).isNone ∧ target = reference := by
          simpa [hinclude, hsection] using h
        obtain rfl := includedSection?_eq_some.mp hsection
        exact ⟨name, rfl, (hmissing name).mp hnone, rfl⟩
  · rintro ⟨name, hinclude, hname, rfl⟩
    have hsection : includedSection? ("#" ++ name) = some name := includedSection?_eq_some.mpr rfl
    simp only [unresolved?, hinclude, hsection, if_pos ((hmissing name).mpr hname)]

/-! ### The issues of includes -/

/-- The issue of a node's include, with the label of the part in which the node stands. -/
def danglingIssue? (d : Document) (w : String × Node) : Option Issue :=
  (unresolved? d w.2).map (.unresolvedInclude w.1)

theorem includeIssues_eq_filterMap (d : Document) :
    includeIssues d = d.labelled.filterMap (danglingIssue? d) := by
  have hpart : ∀ (label : String) (nodes : List Node),
      (nodes.map (label, ·)).filterMap (danglingIssue? d) = unresolvedIn d label nodes := by
    intro label nodes
    rw [unresolvedIn, List.filterMap_map, List.map_filterMap]
    rfl
  rw [includeIssues, Document.labelled, List.filterMap_append, hpart, List.filterMap_flatMap]
  simp only [hpart]

theorem danglesAt_iff {way : List Nat} {issue : Issue} :
    (d.at? way).bind (danglingIssue? d) = some issue ↔ d.DanglesAt way issue := by
  unfold danglingIssue? Document.DanglesAt
  simp only [Option.bind_eq_some_iff, Option.map_eq_some_iff, unresolved?_eq_some, Prod.exists]
  constructor
  · rintro ⟨label, n, hat, _, ⟨name, hinclude, hname, rfl⟩, rfl⟩
    exact ⟨label, n, name, hat, hinclude, hname, rfl⟩
  · rintro ⟨label, n, name, hat, hinclude, hname, rfl⟩
    exact ⟨label, n, hat, _, ⟨name, hinclude, hname, rfl⟩, rfl⟩

/-- The issues of includes are those of the nodes, in document order. -/
theorem exists_listing_danglingAt? (d : Document) :
    ∃ entries, Listing (fun way => (d.at? way).bind (danglingIssue? d)) entries ∧
      entries.map Prod.snd = includeIssues d := by
  obtain ⟨entries, hentries, hvalues⟩ := d.exists_listing_at?
  refine ⟨_, hentries.filterMap (danglingIssue? d), ?_⟩
  rw [map_snd_filterMap, hvalues, includeIssues_eq_filterMap]

/-! ### What is reported besides shadowed patterns -/

theorem filter_separated {α : Type} {p : α → Bool} {l m : List α} (hl : ∀ a ∈ l, p a = false)
    (hm : ∀ a ∈ m, p a = true) : (l ++ m).filter (!p ·) = l ∧ (l ++ m).filter p = m := by
  have hkept : ∀ a ∈ l, (!p a) = true := fun a ha => by rw [hl a ha, Bool.not_false]
  have hdropped : ∀ a ∈ m, ¬ (!p a) = true := fun a ha => by simp [hm a ha]
  have hnone : ∀ a ∈ l, ¬ p a = true := fun a ha => Bool.eq_false_iff.mp (hl a ha)
  rw [List.filter_append, List.filter_append, List.filter_eq_self.mpr hkept,
    List.filter_eq_nil_iff.mpr hdropped, List.filter_eq_nil_iff.mpr hnone,
    List.filter_eq_self.mpr hm, List.append_nil, List.nil_append]
  exact ⟨rfl, rfl⟩

theorem isShadowed_of_mem_shadowIssues {t : ScopeTable} {issue : Issue}
    (h : issue ∈ shadowIssues d t) : issue.isShadowed = true := by
  obtain ⟨route, -, h⟩ := List.mem_flatMap.mp h
  unfold shadowIssuesOf at h
  split at h
  · obtain ⟨scope, -, rfl⟩ := List.mem_map.mp h
    rfl
  · cases h

theorem isShadowed_of_mem_includeIssues {issue : Issue} (h : issue ∈ includeIssues d) :
    issue.isShadowed = false := by
  rw [includeIssues_eq_filterMap, List.mem_filterMap] at h
  obtain ⟨w, -, h⟩ := h
  obtain ⟨reference, -, rfl⟩ := Option.map_eq_some_iff.mp h
  rfl

theorem isShadowed_of_mem_scopeNameIssues {wanted : String} {issue : Issue}
    (h : issue ∈ scopeNameIssues d wanted) : issue.isShadowed = false := by
  unfold scopeNameIssues at h
  split at h
  · cases h
  · obtain rfl := List.mem_singleton.mp h
    rfl

/-- The two kinds of issues stand apart: shadowed patterns come last. -/
theorem filter_lint (d : Document) (t : ScopeTable) (wanted : String) :
    (lint d t wanted).filter (!·.isShadowed) = scopeNameIssues d wanted ++ includeIssues d ∧
      (lint d t wanted).filter (·.isShadowed) = shadowIssues d t := by
  apply filter_separated
  · intro issue h
    rcases List.mem_append.mp h with h | h
    · exact isShadowed_of_mem_scopeNameIssues h
    · exact isShadowed_of_mem_includeIssues h
  · intro issue h
    exact isShadowed_of_mem_shadowIssues h

end Lint

/-- **Every include is resolved once.** Besides shadowed patterns the issues of a grammar are its
scope name, if it is not the one expected, and then one for each node with a dangling include, in
document order: ways that increase lead to just these nodes. So there are none if the scope name is
the one expected and every include of the grammar itself, at any depth, names a section; a reference
of another form is in no issue. -/
theorem includes_are_resolved (d : Document) (t : ScopeTable) (wanted : String) :
    (∃ found : List (List Nat × Issue),
      (lint d t wanted).filter (!·.isShadowed) =
        (if d.scopeName = wanted then [] else [.unexpectedScopeName wanted d.scopeName]) ++
          found.map Prod.snd ∧
      (found.map Prod.fst).Pairwise (· < ·) ∧
      ∀ way issue, (way, issue) ∈ found ↔ d.DanglesAt way issue) ∧
    ((lint d t wanted).filter (!·.isShadowed) = [] ↔ d.scopeName = wanted ∧
      ∀ way label n name, d.at? way = some (label, n) → n.include? = some ("#" ++ name) →
        name ∈ Entries.keys d.repository) ∧
    ∀ label reference, (∀ name, reference ≠ "#" ++ name) →
      .unresolvedInclude label reference ∉ lint d t wanted := by
  obtain ⟨found, hfound, hvalues⟩ := Lint.exists_listing_danglingAt? d
  have hissues : (lint d t wanted).filter (!·.isShadowed) =
      Lint.scopeNameIssues d wanted ++ found.map Prod.snd := by
    rw [(Lint.filter_lint d t wanted).1, hvalues]
  have hmem : ∀ way issue, (way, issue) ∈ found ↔ d.DanglesAt way issue := by
    intro way issue
    rw [hfound.mem_iff, Lint.danglesAt_iff]
  refine ⟨⟨found, hissues, hfound.increasing, hmem⟩, ?_, ?_⟩
  · have hscope : Lint.scopeNameIssues d wanted = [] ↔ d.scopeName = wanted := by
      rw [Lint.scopeNameIssues]
      split <;> simp [*]
    rw [hissues, List.append_eq_nil_iff, hscope, List.map_eq_nil_iff]
    apply and_congr_right
    intro _
    rw [List.eq_nil_iff_forall_not_mem]
    constructor
    · intro hnone way label n name hat hinclude
      by_contra hname
      exact hnone (way, _) ((hmem _ _).mpr ⟨label, n, name, hat, hinclude, hname, rfl⟩)
    · rintro hall ⟨way, issue⟩ he
      obtain ⟨label, n, name, hat, hinclude, hname, -⟩ := (hmem _ _).mp he
      exact hname (hall way label n name hat hinclude)
  · intro label reference hother h
    have hfiltered : .unresolvedInclude label reference ∈
        (lint d t wanted).filter (!·.isShadowed) := List.mem_filter.mpr ⟨h, rfl⟩
    rw [hissues, List.mem_append] at hfiltered
    rcases hfiltered with hscope | hinclude
    · unfold Lint.scopeNameIssues at hscope
      split at hscope <;> simp at hscope
    · obtain ⟨⟨way, _⟩, he, rfl⟩ := List.mem_map.mp hinclude
      obtain ⟨_, _, name, -, -, -, heq⟩ := (hmem _ _).mp he
      injection heq with _ heq
      exact hother name heq

/-- Includes of missing sections in a nested node, as a section's own node, and with an empty name;
the others name a section or another grammar. -/
def tangledGrammar : Document where
  scopeName := "source.sample"
  patterns := [⟨none, none, none, none, [("include", .string "#strings")], ["include"]⟩,
    ⟨none, none, none, some [⟨none, none, none, none, [("include", .string "$self")], ["include"]⟩,
      ⟨none, none, none, none, [("include", .string "#gone")], ["include"]⟩], [], ["patterns"]⟩]
  repository := [("alias", ⟨none, none, none, none, [("include", .string "#lost")], ["include"]⟩),
    ("strings", ⟨none, none, none, some [
      ⟨none, none, none, none, [("include", .string "source.other")], ["include"]⟩,
      ⟨none, none, none, some [⟨none, none, none, none, [("include", .string "#")], ["include"]⟩],
        [], ["patterns"]⟩], [], ["patterns"]⟩)]
  rest := []
  order := ["scopeName", "patterns", "repository"]

/-- The three are reported where they stand, the second under its own section. -/
theorem tangledGrammar_includes : ∃ found : List (List Nat × Issue),
    (lint tangledGrammar .hew "source.hew").filter (!·.isShadowed) =
      .unexpectedScopeName "source.hew" "source.sample" :: found.map Prod.snd ∧
    ([0, 1, 1], .unresolvedInclude "patterns" "#gone") ∈ found ∧
    ([1], .unresolvedInclude "repository.alias" "#lost") ∈ found ∧
    ([2, 1, 0], .unresolvedInclude "repository.strings" "#") ∈ found ∧
    .unresolvedInclude "patterns" "$self" ∉ lint tangledGrammar .hew "source.hew" := by
  obtain ⟨⟨found, hissues, -, hmem⟩, -, hother⟩ :=
    includes_are_resolved tangledGrammar .hew "source.hew"
  refine ⟨found, hissues, (hmem _ _).mpr ⟨_, _, "gone", rfl, rfl, by decide, rfl⟩,
    (hmem _ _).mpr ⟨_, _, "lost", rfl, rfl, by decide, rfl⟩,
    (hmem _ _).mpr ⟨_, _, "", rfl, rfl, by decide, rfl⟩, hother _ _ fun name h => ?_⟩
  have hchars := congrArg String.toList h
  rw [String.toList_append] at hchars
  exact absurd (List.cons.inj hchars).1 (by decide)

end GrammarSync
