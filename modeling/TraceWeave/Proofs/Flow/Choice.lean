import TraceWeave.Proofs.Flow.Anchor
import TraceWeave.Proofs.Flow.Reachability

/-!
# Which anchor a line gets

`FlowGraph.Chooses` says what the anchor of a line is meant to be, without any search: the first
label that the index has for the line; otherwise the first reachable node with a later line;
otherwise the last reachable node with an earlier line; otherwise none.  The four cases exclude each
other, so there is one choice for every graph, index and line.

Anchors are found in two ways, one with a search for every candidate and one with a single search
for everything.  Both searches find what is reachable, so both ways make that choice
(`FlowGraph.anchor_eq_iff_chooses`).
-/

namespace TraceWeave

/-! ## The line itself -/

namespace LineIndex

variable {index : LineIndex} {line : UInt32} {label : Label}

theorem firstAt?_eq_some_iff :
    index.firstAt? line = some label ↔
      ∃ before after, index.entries = before ++ (line, label) :: after ∧
        ∀ e ∈ before, e.1 ≠ line := by
  rw [firstAt?, Option.map_eq_some_iff]
  constructor
  · rintro ⟨⟨n, l⟩, hfind, rfl⟩
    obtain ⟨hline, before, after, hentries, hbefore⟩ := List.find?_eq_some_iff_append.1 hfind
    obtain rfl : n = line := by simpa using hline
    exact ⟨before, after, hentries, fun e he => by simpa using hbefore e he⟩
  · rintro ⟨before, after, hentries, hbefore⟩
    refine ⟨(line, label), List.find?_eq_some_iff_append.2 ⟨by simp, ?_⟩, rfl⟩
    exact ⟨before, after, hentries, fun e he => by simpa using hbefore e he⟩

theorem firstAt?_eq_none_iff :
    index.firstAt? line = none ↔ ∀ e ∈ index.entries, e.1 ≠ line := by
  simp [firstAt?, List.find?_eq_none]

end LineIndex

namespace FlowGraph

/-! ## The choice -/

/-- A node is reachable and has a line that is later. -/
def IsLater (g : FlowGraph) (line : UInt32) (node : Label × Option UInt32) : Prop :=
  (∃ n, node.2 = some n ∧ line < n) ∧ g.Reachable node.1

/-- A node is reachable and has a line that is earlier. -/
def IsEarlier (g : FlowGraph) (line : UInt32) (node : Label × Option UInt32) : Prop :=
  (∃ n, node.2 = some n ∧ n < line) ∧ g.Reachable node.1

/-- The anchor that a line is meant to have. -/
inductive Chooses (g : FlowGraph) (index : LineIndex) (line : UInt32) : Option Label → Prop
  /-- The index has the line, and this is its first label there. -/
  | exact {before after : List (UInt32 × Label)} {label : Label}
      (hentries : index.entries = before ++ (line, label) :: after)
      (hfirst : ∀ e ∈ before, e.1 ≠ line) : Chooses g index line (some label)
  /-- The index does not have the line, and this is the first reachable node with a later one. -/
  | later {before after : List (Label × Option UInt32)} {node : Label × Option UInt32}
      (habsent : ∀ e ∈ index.entries, e.1 ≠ line)
      (hnodes : g.nodes = before ++ node :: after) (hlater : g.IsLater line node)
      (hfirst : ∀ other ∈ before, ¬ g.IsLater line other) : Chooses g index line (some node.1)
  /-- No reachable node has a later line either, and this is the last one with an earlier one. -/
  | earlier {before after : List (Label × Option UInt32)} {node : Label × Option UInt32}
      (habsent : ∀ e ∈ index.entries, e.1 ≠ line)
      (hnoLater : ∀ other ∈ g.nodes, ¬ g.IsLater line other)
      (hnodes : g.nodes = before ++ node :: after) (hearlier : g.IsEarlier line node)
      (hlast : ∀ other ∈ after, ¬ g.IsEarlier line other) : Chooses g index line (some node.1)
  /-- There is nothing to choose from. -/
  | none (habsent : ∀ e ∈ index.entries, e.1 ≠ line)
      (hnoLater : ∀ node ∈ g.nodes, ¬ g.IsLater line node)
      (hnoEarlier : ∀ node ∈ g.nodes, ¬ g.IsEarlier line node) : Chooses g index line none

variable {g : FlowGraph} {index : LineIndex} {line : UInt32} {isReachable : Label → Bool}

/-! ## How it is found -/

theorem any_later_eq_true_iff (hreachable : ∀ l, isReachable l = true ↔ g.Reachable l)
    (line : UInt32) (node : Label × Option UInt32) :
    (node.2.any (line < ·) && isReachable node.1) = true ↔ g.IsLater line node := by
  rw [Bool.and_eq_true, hreachable, IsLater, Option.any_eq_true]
  simp

theorem any_earlier_eq_true_iff (hreachable : ∀ l, isReachable l = true ↔ g.Reachable l)
    (line : UInt32) (node : Label × Option UInt32) :
    (node.2.any (· < line) && isReachable node.1) = true ↔ g.IsEarlier line node := by
  rw [Bool.and_eq_true, hreachable, IsEarlier, Option.any_eq_true]
  simp

/-- A choice among the nodes is made with the node that a predicate finds first. -/
theorem find?_eq_some_iff_of_iff {p : Label × Option UInt32 → Bool}
    {P : Label × Option UInt32 → Prop} (hp : ∀ node, p node = true ↔ P node)
    {nodes : List (Label × Option UInt32)} {node : Label × Option UInt32} :
    nodes.find? p = some node ↔
      P node ∧ ∃ before after, nodes = before ++ node :: after ∧ ∀ other ∈ before, ¬ P other := by
  rw [List.find?_eq_some_iff_append, hp]
  refine and_congr_right fun _ => exists_congr fun _ => exists_congr fun _ => and_congr_right ?_
  exact fun _ => forall₂_congr fun other _ => by
    rw [← hp other, Bool.not_eq_true', Bool.not_eq_true]

theorem find?_eq_none_iff_of_iff {p : Label × Option UInt32 → Bool}
    {P : Label × Option UInt32 → Prop} (hp : ∀ node, p node = true ↔ P node)
    {nodes : List (Label × Option UInt32)} :
    nodes.find? p = none ↔ ∀ node ∈ nodes, ¬ P node := by
  rw [List.find?_eq_none]
  exact forall₂_congr fun node _ => not_congr (hp node)

/-- If a test tells what is reachable, then with it the choice is found. -/
theorem chooses_anchorBy? (hreachable : ∀ l, isReachable l = true ↔ g.Reachable l) :
    g.Chooses index line (g.anchorBy? index isReachable line) := by
  have hlaterIff := any_later_eq_true_iff hreachable line
  have hearlierIff := any_earlier_eq_true_iff hreachable line
  unfold anchorBy?
  cases hindex : index.firstAt? line with
  | some label =>
    obtain ⟨before, after, hentries, hfirst⟩ := LineIndex.firstAt?_eq_some_iff.1 hindex
    exact .exact hentries hfirst
  | none =>
    have habsent := LineIndex.firstAt?_eq_none_iff.1 hindex
    cases hlater : g.nodes.find? fun node => node.2.any (line < ·) && isReachable node.1 with
    | some node =>
      obtain ⟨hnode, before, after, hnodes, hfirst⟩ := (find?_eq_some_iff_of_iff hlaterIff).1 hlater
      exact .later habsent hnodes hnode hfirst
    | none =>
      have hnoLater := (find?_eq_none_iff_of_iff hlaterIff).1 hlater
      cases hearlier : g.nodes.reverse.find?
          fun node => node.2.any (· < line) && isReachable node.1 with
      | some node =>
        obtain ⟨hnode, after, before, hnodes, hlast⟩ :=
          (find?_eq_some_iff_of_iff hearlierIff).1 hearlier
        have hnodes : g.nodes = before.reverse ++ node :: after.reverse := by
          rw [← List.reverse_reverse g.nodes, hnodes]
          simp
        exact .earlier habsent hnoLater hnodes hnode fun other hother =>
          hlast other (List.mem_reverse.1 hother)
      | none =>
        refine .none habsent hnoLater fun node hnode => ?_
        exact (find?_eq_none_iff_of_iff hearlierIff).1 hearlier node (List.mem_reverse.2 hnode)

/-- There is nothing else to choose. -/
theorem Chooses.eq_anchorBy? {answer : Option Label} (h : g.Chooses index line answer)
    (hreachable : ∀ l, isReachable l = true ↔ g.Reachable l) :
    g.anchorBy? index isReachable line = answer := by
  have hlaterIff := any_later_eq_true_iff hreachable line
  have hearlierIff := any_earlier_eq_true_iff hreachable line
  unfold anchorBy?
  cases h with
  | exact hentries hfirst =>
    rw [LineIndex.firstAt?_eq_some_iff.2 ⟨_, _, hentries, hfirst⟩]
  | later habsent hnodes hlater hfirst =>
    rw [LineIndex.firstAt?_eq_none_iff.2 habsent]
    simp only
    rw [(find?_eq_some_iff_of_iff hlaterIff).2 ⟨hlater, _, _, hnodes, hfirst⟩]
    rfl
  | @earlier before after node habsent hnoLater hnodes hearlier hlast =>
    have hreverse : g.nodes.reverse = after.reverse ++ node :: before.reverse := by simp [hnodes]
    rw [LineIndex.firstAt?_eq_none_iff.2 habsent]
    simp only
    rw [(find?_eq_none_iff_of_iff hlaterIff).2 hnoLater,
      (find?_eq_some_iff_of_iff hearlierIff).2 ⟨hearlier, _, _, hreverse,
        fun other hother => hlast other (List.mem_reverse.1 hother)⟩]
    rfl
  | none habsent hnoLater hnoEarlier =>
    rw [LineIndex.firstAt?_eq_none_iff.2 habsent]
    simp only
    rw [(find?_eq_none_iff_of_iff hlaterIff).2 hnoLater,
      (find?_eq_none_iff_of_iff hearlierIff).2
        fun node hnode => hnoEarlier node (List.mem_reverse.1 hnode)]
    rfl

/-- With a test that tells what is reachable, exactly the choice is found. -/
theorem anchorBy?_eq_iff {answer : Option Label}
    (hreachable : ∀ l, isReachable l = true ↔ g.Reachable l) :
    g.anchorBy? index isReachable line = answer ↔ g.Chooses index line answer :=
  ⟨fun h => h ▸ chooses_anchorBy? hreachable, fun h => h.eq_anchorBy? hreachable⟩

/-! ## Bodies -/

/-- In a body there is nothing to choose exactly if no instruction carries the line and none that
carries any line is reachable. -/
theorem chooses_none_ofBody_iff (b : Body) (line : UInt32) :
    (ofBody b).Chooses (.ofBody b) line none ↔
      (∀ i ∈ b.instrs, i.sourceLine? ≠ some line) ∧
        ∀ i ∈ b.instrs, i.sourceLine?.isSome → ¬ (ofBody b).Reachable i.label := by
  have habsentIff : (∀ e ∈ (LineIndex.ofBody b).entries, e.1 ≠ line) ↔
      ∀ i ∈ b.instrs, i.sourceLine? ≠ some line := by
    rw [← LineIndex.firstAt?_eq_none_iff, LineIndex.firstAt?_ofBody]
    simp [List.find?_eq_none]
  constructor
  · rintro (_ | _ | _ | ⟨habsent, hnoLater, hnoEarlier⟩)
    refine ⟨habsentIff.1 habsent, fun i hi hline hreachable => ?_⟩
    obtain ⟨n, hn⟩ := Option.isSome_iff_exists.1 hline
    have hnode : (i.label, i.sourceLine?) ∈ (ofBody b).nodes := by
      rw [nodes_ofBody]
      exact List.mem_map_of_mem hi
    have hne : n ≠ line := fun heq => habsentIff.1 habsent i hi (heq ▸ hn)
    rcases UInt32.lt_or_lt_of_ne hne with hlt | hgt
    · exact hnoEarlier _ hnode ⟨⟨n, hn, hlt⟩, hreachable⟩
    · exact hnoLater _ hnode ⟨⟨n, hn, hgt⟩, hreachable⟩
  · rintro ⟨habsent, hunreachable⟩
    have hnodes : ∀ node ∈ (ofBody b).nodes, node.2.isSome → ¬ (ofBody b).Reachable node.1 := by
      rw [nodes_ofBody]
      exact List.forall_mem_map.2 hunreachable
    refine .none (habsentIff.2 habsent) ?_ ?_ <;>
    · rintro node hnode ⟨⟨n, hn, -⟩, hreachable⟩
      exact hnodes node hnode (Option.isSome_iff_exists.2 ⟨n, hn⟩) hreachable

/-- Both ways to find the anchor of a line make the same choice, in every graph and with every
index; in a body they find none exactly if no instruction carries the line and none that carries any
line is reachable. -/
theorem anchor_eq_iff_chooses (g : FlowGraph) (index : LineIndex) (line : UInt32) :
    (∀ answer, g.anchor? index line = answer ↔ g.Chooses index line answer) ∧
      (∀ answer, ({ graph := g, index } : AnchorFinder).find? line = answer ↔
        g.Chooses index line answer) ∧
      ∀ b : Body,
        (AnchorFinder.ofBody b).find? line = (ofBody b).anchor? (.ofBody b) line ∧
          ((ofBody b).anchor? (.ofBody b) line = none ↔
            (∀ i ∈ b.instrs, i.sourceLine? ≠ some line) ∧
              ∀ i ∈ b.instrs, i.sourceLine?.isSome → ¬ (ofBody b).Reachable i.label) := by
  have hsearch : ∀ (g : FlowGraph) (index : LineIndex) (answer : Option Label),
      g.anchor? index line = answer ↔ g.Chooses index line answer :=
    fun g index answer => anchorBy?_eq_iff fun _ => reaches_iff_reachable
  have hfinder : ∀ (g : FlowGraph) (index : LineIndex) (answer : Option Label),
      ({ graph := g, index } : AnchorFinder).find? line = answer ↔ g.Chooses index line answer :=
    fun g index answer =>
      anchorBy?_eq_iff fun _ => List.contains_iff_mem.trans mem_reachable_iff
  refine ⟨hsearch g index, hfinder g index, fun b => ⟨?_, ?_⟩⟩
  · exact (hfinder _ _ _).2 ((hsearch _ _ _).1 rfl)
  · exact (hsearch _ _ _).trans (chooses_none_ofBody_iff b line)

end FlowGraph

end TraceWeave
