import Clausal.Proofs.Extraction
import Clausal.Proofs.Graphs
import Clausal.Proofs.Positions
import Clausal.Proofs.Stability

/-!
# Graphs of proofs

The proof of a result is written as a graph in the DOT language.  Nodes are named by the indices of the steps and
labelled with their names, in which only double quotes are escaped.  A label is still read as the name, whatever
backslashes and quotes it holds, but for one case: a backslash at its end escapes the quote that should close the label.

* `Outcome.chart`: the graph of the steps of a proof;
* `Outcome.read_drawing_iff`: the text that is written is read as this graph exactly if no name ends with a backslash;
* `Outcome.Drawn`: what can be said of the graph of an outcome;
* `Outcome.drawn_of_placed`: clauses that were registered last where they stand are drawn like this;
* `Session.drawn_unless_backslash`: so are the results of runs.
-/

namespace Clausal

open Dot

namespace Outcome

variable {o : Outcome} {steps : List Clause} {c : Clause} {i j : Int}

/-! ## Lines of a graph -/

/-- The graph of the steps of a proof: a node for each, labelled with its name, and edges from its parents to it. -/
def chart (steps : List Clause) : Graph :=
  ⟨steps.map fun c => (node c.index, c.name),
    steps.flatMap fun c => c.parents.map fun parent => (node parent, node c.index)⟩

/-- The lines that are written for the steps of a proof. -/
def drawingLines (steps : List Clause) : List String :=
  ["digraph proof \x7b", "  rankdir=BT;", "  node [shape=box, style=rounded];"] ++ steps.flatMap nodeLines ++ ["\x7d"]

/-- The text that is written for the steps of a proof. -/
def drawing (steps : List Clause) : String := Text.unlines (drawingLines steps)

theorem graph_eq (h : o.proof = .ok steps) : o.graph = .ok (drawing steps) := by
  simp only [graph, h, bind, Except.bind, pure, Except.pure]
  rfl

theorem toList_node (n : Nat) : (node n).toList = 'c' :: Nat.toDigits 10 n := by
  rw [node, String.toList_append]
  exact congrArg ("c".toList ++ ·) Nat.toList_repr

theorem alphanum_of_mem_node (hi : 0 ≤ i) : ∀ c ∈ (node i).toList, c.isAlphanum = true := by
  lift i to Nat using hi
  intro c hc
  rw [toList_node] at hc
  rcases List.mem_cons.1 hc with rfl | hc
  · rfl
  · simp [Char.isAlphanum, Nat.isDigit_of_mem_toDigits (by decide) (by decide) hc]

theorem isPlain_of_alphanum {x : Char} (h : x.isAlphanum = true) : isPlain x = true := by
  have hne : ∀ y : Char, y.isAlphanum = false → x ≠ y := by
    rintro y hy rfl
    rw [hy] at h
    cases h
  simp [isPlain, isBlank, mark?, hne ' ' rfl, hne '\t' rfl, hne '\n' rfl, hne '\r' rfl, hne '"' rfl, hne '\x7b' rfl,
    hne '\x7d' rfl, hne '[' rfl, hne ']' rfl, hne '=' rfl, hne ',' rfl, hne ';' rfl]

theorem isPlain_of_mem_node (hi : 0 ≤ i) : ∀ x ∈ (node i).toList, isPlain x = true :=
  fun x hx => isPlain_of_alphanum (alphanum_of_mem_node hi x hx)

theorem node_ne_nil (i : Int) : (node i).toList ≠ [] := by
  simp [node]

theorem isName_node (hi : 0 ≤ i) : isName (node i).toList = true := by
  have halphanum := alphanum_of_mem_node hi
  lift i to Nat using hi
  rw [toList_node] at halphanum ⊢
  rw [isName, Bool.and_eq_true, List.all_eq_true]
  refine ⟨rfl, fun x hx => ?_⟩
  rw [halphanum x hx, Bool.true_or]

theorem node_not_mem_keywords (hi : 0 ≤ i) : (node i).toList ∉ keywords := by
  lift i to Nat using hi
  rw [toList_node]
  simp [keywords]

/-- Different positions have different nodes. -/
theorem node_inj (hi : 0 ≤ i) (hj : 0 ≤ j) (h : node i = node j) : i = j := by
  lift i to Nat using hi
  lift j to Nat using hj
  have hdigits := congrArg String.toList h
  rw [toList_node, toList_node, List.cons.injEq] at hdigits
  have hread := congrArg (Nat.ofDigitChars 10 · 0) hdigits.2
  simp only [Nat.ofDigitChars_ten_toDigits] at hread
  rw [hread]

theorem tells_edge (hi : 0 ≤ i) (hj : 0 ≤ j) :
    Tells ("  " ++ node i ++ " -> " ++ node j ++ ";") (.edge (node i) (node j)) := by
  refine ⟨[.word (node i).toList, .word "->".toList, .word (node j).toList], ?_, by simp, ?_⟩
  · have hindent : Scans "  ".toList [] := by decide
    have hsource := scans_word_blank (isPlain_of_mem_node hi) (node_ne_nil i)
    have harrow : Scans "-> ".toList [.word "->".toList] := by decide +kernel
    have htarget : Scans ((node j).toList ++ [';']) [.word (node j).toList, .mark .semicolon] :=
      scans_word_mark (isPlain_of_mem_node hj) (node_ne_nil j) (by decide) rfl rfl
    have hend : Scans ['\n'] [] := by decide
    have hline := (((hindent.append hsource).append harrow).append htarget).append hend
    simpa [String.toList_append] using hline
  · simp [statement, isName_node hi, isName_node hj]

/-- The label of a clause whose name can be quoted is read as the name. -/
theorem tells_node (hc : 0 ≤ c.index) (hname : Quotable c.name.toList) :
    Tells ("  " ++ node c.index ++ " [label=\"" ++ label c.name ++ "\", fillcolor=" ++ colour c ++ ", style=filled];")
      (.node (node c.index) c.name) := by
  have hcolour : Scans ((colour c).toList ++ [',']) [.word (colour c).toList, .mark .comma] ∧
      isName (colour c).toList = true := by
    unfold colour
    split
    · decide +kernel
    · split <;> decide +kernel
  refine ⟨[.word (node c.index).toList, .mark .bracketOpen, .word "label".toList, .mark .equals, .quoted c.name.toList,
    .mark .comma, .word "fillcolor".toList, .mark .equals, .word (colour c).toList, .mark .comma, .word "style".toList,
    .mark .equals, .word "filled".toList, .mark .bracketClose], ?_, by simp, ?_⟩
  · have hindent : Scans "  ".toList [] := by decide
    have hnode := scans_word_blank (isPlain_of_mem_node hc) (node_ne_nil c.index)
    have hlabel : Scans "[label=".toList [.mark .bracketOpen, .word "label".toList, .mark .equals] := by decide +kernel
    have hfill : Scans ", fillcolor=".toList [.mark .comma, .word "fillcolor".toList, .mark .equals] := by
      decide +kernel
    have hstyle : Scans " style=filled];\n".toList [.word "style".toList, .mark .equals, .word "filled".toList,
        .mark .bracketClose, .mark .semicolon] := by
      decide +kernel
    have hline := (((((hindent.append hnode).append hlabel).append (scans_quoted hname)).append hfill).append
      hcolour.1).append hstyle
    simpa [String.toList_append] using hline
  · have hfilled : isName "filled".toList = true := by decide
    have hattributes : attributes [.word "label".toList, .mark .equals, .quoted c.name.toList, .mark .comma,
        .word "fillcolor".toList, .mark .equals, .word (colour c).toList, .mark .comma, .word "style".toList,
        .mark .equals, .word "filled".toList, .mark .bracketClose] = some [("label".toList, c.name.toList),
          ("fillcolor".toList, (colour c).toList), ("style".toList, "filled".toList)] := by
      simp only [attributes, Token.value?, hcolour.2, hfilled, if_true, Option.map_some, Option.bind_some]
    have hlabel : labelOf (node c.index).toList [("label".toList, c.name.toList),
        ("fillcolor".toList, (colour c).toList), ("style".toList, "filled".toList)] = c.name.toList := rfl
    rw [statement, hattributes, Option.bind_some, if_neg (node_not_mem_keywords hc), if_pos (isName_node hc), hlabel,
      String.ofList_toList, String.ofList_toList]

/-! ## What is drawn -/

/-- The statements in the lines of a step. -/
def stepStatements (c : Clause) : List Statement :=
  .node (node c.index) c.name :: c.parents.map fun parent => .edge (node parent) (node c.index)

theorem tells_nodeLines (hc : 0 ≤ c.index) (hparents : ∀ x ∈ c.parents, 0 ≤ x) (hname : Quotable c.name.toList) :
    List.Forall₂ Tells (nodeLines c) (stepStatements c) := by
  refine .cons (tells_node hc hname) ?_
  rw [List.forall₂_map_left_iff, List.forall₂_map_right_iff]
  exact List.forall₂_same.2 fun x hx => tells_edge (hparents x hx) hc

theorem tells_steps (hindex : ∀ c ∈ steps, 0 ≤ c.index) (hparents : ∀ c ∈ steps, ∀ x ∈ c.parents, 0 ≤ x)
    (hnames : ∀ c ∈ steps, Quotable c.name.toList) :
    List.Forall₂ Tells (steps.flatMap nodeLines) (steps.flatMap stepStatements) := by
  induction steps with
  | nil => exact .nil
  | cons c steps ih =>
    rw [List.forall_mem_cons] at hindex hparents hnames
    rw [List.flatMap_cons, List.flatMap_cons]
    exact List.rel_append (tells_nodeLines hindex.1 hparents.1 hnames.1) (ih hindex.2 hparents.2 hnames.2)

theorem ofStatements_steps (steps : List Clause) :
    Graph.ofStatements ([.setting, .defaults] ++ steps.flatMap stepStatements) = chart steps := by
  have hnode : ∀ c : Clause, (stepStatements c).filterMap Statement.node? = [(node c.index, c.name)] := by
    intro c
    simp [stepStatements, Statement.node?, List.filterMap_map, Function.comp_def]
  have hedge : ∀ c : Clause, (stepStatements c).filterMap Statement.edge? =
      c.parents.map fun parent => (node parent, node c.index) := by
    intro c
    rw [stepStatements, List.filterMap_cons_none rfl, List.filterMap_map, ← List.filterMap_eq_map]
    rfl
  show (⟨(steps.flatMap stepStatements).filterMap Statement.node?,
    (steps.flatMap stepStatements).filterMap Statement.edge?⟩ : Graph) = chart steps
  simp only [List.filterMap_flatMap, hnode, hedge, chart, List.map_eq_flatMap]

/-- **A drawing is read as the graph of its steps exactly if no label ends with a backslash.** -/
theorem read_drawing_iff (hindex : ∀ c ∈ steps, 0 ≤ c.index) (hparents : ∀ c ∈ steps, ∀ x ∈ c.parents, 0 ≤ x) :
    Dot.read (drawing steps) = some (chart steps) ↔ ∀ c ∈ steps, Quotable c.name.toList := by
  constructor
  · intro hread c hc
    exact label_of_read hread (node c.index, c.name) (List.mem_map_of_mem hc)
  · intro hnames
    have hlines : List.Forall₂ Tells
        (["  rankdir=BT;", "  node [shape=box, style=rounded];"] ++ steps.flatMap nodeLines)
        ([.setting, .defaults] ++ steps.flatMap stepStatements) := by
      refine List.rel_append (.cons ?_ (.cons ?_ .nil)) (tells_steps hindex hparents hnames)
      · exact ⟨[.word "rankdir".toList, .mark .equals, .word "BT".toList], by decide +kernel⟩
      · exact ⟨[.word "node".toList, .mark .bracketOpen, .word "shape".toList, .mark .equals, .word "box".toList,
          .mark .comma, .word "style".toList, .mark .equals, .word "rounded".toList, .mark .bracketClose],
          by decide +kernel⟩
    rw [← ofStatements_steps, ← read_of_tells hlines]
    rfl

end Outcome

/-! ## Indices that are positions -/

theorem map_eq_of_forall₂ {α β : Type} {R : α → β → Prop} {f : β → α} {as : List α} {bs : List β}
    (h : List.Forall₂ R as bs) (hf : ∀ a ∈ as, ∀ b, R a b → f b = a) : bs.map f = as := by
  induction h with
  | nil => rfl
  | cons hab _ ih =>
    rw [List.map_cons, hf _ (by simp) _ hab, ih fun a ha => hf a (by simp [ha])]

namespace Derivation

variable {d d₁ : Derivation} {root : Int} {G : Set Nat} {steps : List Clause}

/-- Whatever is reached from the root is counted from the front, and was registered last where it is reached. -/
def Placed (d : Derivation) (root : Int) : Prop :=
  ∀ i c, d.Reaches root i → d.Stands i c → 0 ≤ i ∧ c.index = i

theorem Indexed.placed (h : d.Indexed) (hfront : ∀ i, d.Reaches root i → 0 ≤ i) : d.Placed root := by
  rintro i c hi ⟨n, hn, heq⟩
  have hpositive := hfront i hi
  have hlt : n < d.size := d.size_eq ▸ lt_of_getElem? hn
  have hin : i = n := by omega
  refine ⟨hpositive, ?_⟩
  rw [h n c hn, hin]

/-- The steps are then listed under the indices by which they are reached. -/
theorem Gathers.indices (h : d.Gathers root steps) (hplaced : d.Placed root) :
    (steps.map Clause.index).Nodup ∧ ∀ i, i ∈ steps.map Clause.index ↔ d.Reaches root i := by
  obtain ⟨names, hnodup, hnames, hstand⟩ := h.entries
  have hindices : steps.map Clause.index = names :=
    map_eq_of_forall₂ hstand fun i hi c hstands => (hplaced i c ((hnames i).1 hi) hstands).2
  rw [hindices]
  exact ⟨hnodup, hnames⟩

theorem Gathers.exists_stands (h : d.Gathers root steps) {c : Clause} (hc : c ∈ steps) :
    ∃ i, d.Reaches root i ∧ d.Stands i c := by
  obtain ⟨names, -, hnames, hstand⟩ := h.entries
  obtain ⟨i, hi, hstands⟩ := exists_left_of_forall₂ hstand hc
  exact ⟨i, (hnames i).1 hi, hstands⟩

theorem Gathers.nonneg (h : d.Gathers root steps) (hplaced : d.Placed root) {i : Int} (hi : d.Reaches root i) :
    0 ≤ i := by
  obtain ⟨c, hc, rfl⟩ := List.mem_map.1 (((h.indices hplaced).2 i).2 hi)
  obtain ⟨j, hj, hstands⟩ := h.exists_stands hc
  obtain ⟨hfront, hindex⟩ := hplaced j c hj hstands
  rwa [hindex]

/-- From one of the positions that are shown only such positions are reached. -/
theorem Shows.of_reaches (hclosed : d.ClosedOn G) (h : d.Shows G d₁) (hroot : ∃ j ∈ G, root = (j : Int)) {i : Int}
    (hi : d₁.Reaches root i) : ∃ j ∈ G, i = (j : Int) := by
  induction hi with
  | root => exact hroot
  | parent _ hc hx ih =>
    obtain ⟨j, hj, b, hb, hget⟩ := h.get?_eq ih
    obtain ⟨b', hb', hparents⟩ := hclosed j hj
    obtain rfl : b = b' := Option.some.inj (hb.symm.trans hb')
    rw [get?_eq_some_iff.2 hc, Option.some.injEq] at hget
    subst hget
    exact hparents _ hx

end Derivation

namespace Outcome

variable {o : Outcome} {steps : List Clause} {root : Int}

/-- The graph of the outcome is one of the steps of its proof.  The text that is written is read as their graph exactly
if no label ends with a backslash; the nodes are different, and the edges lead from nodes to nodes. -/
structure Drawn (o : Outcome) (steps : List Clause) : Prop where
  proof : o.proof = .ok steps
  text : ∃ text, o.graph = .ok text ∧ (Dot.read text = some (chart steps) ↔ ∀ c ∈ steps, Quotable c.name.toList)
  distinct : ((chart steps).nodes.map Prod.fst).Nodup
  declared : ∀ edge ∈ (chart steps).edges, edge.1 ∈ (chart steps).nodes.map Prod.fst ∧
    edge.2 ∈ (chart steps).nodes.map Prod.fst

theorem drawn_of_placed (hproven : o.verdict = .proven root) (hplaced : o.derivation.Placed root)
    (hproof : o.proof = .ok steps) : o.Drawn steps := by
  have hgathers : o.derivation.Gathers root steps := by
    rcases gathered_or_stray hproven with ⟨-, steps', hok, hgathers⟩ | ⟨i, -, -, herror⟩
    · rwa [Except.ok.inj (hproof.symm.trans hok)]
    · cases hproof.symm.trans herror
  obtain ⟨hnodup, hindices⟩ := hgathers.indices hplaced
  have hindex : ∀ c ∈ steps, o.derivation.Reaches root c.index := fun c hc =>
    (hindices _).1 (List.mem_map_of_mem hc)
  have hparents : ∀ c ∈ steps, ∀ x ∈ c.parents, o.derivation.Reaches root x := by
    intro c hc x hx
    obtain ⟨i, hi, hstands⟩ := hgathers.exists_stands hc
    exact hi.parent hstands hx
  have hnodes : (chart steps).nodes.map Prod.fst = (steps.map Clause.index).map Outcome.node := by
    simp [chart]
  have hnode : ∀ i, o.derivation.Reaches root i → Outcome.node i ∈ (chart steps).nodes.map Prod.fst := by
    intro i hi
    rw [hnodes]
    exact List.mem_map_of_mem ((hindices i).2 hi)
  refine ⟨hproof, ⟨_, graph_eq hproof, ?_⟩, ?_, ?_⟩
  · exact read_drawing_iff (fun c hc => hgathers.nonneg hplaced (hindex c hc)) fun c hc x hx =>
      hgathers.nonneg hplaced (hparents c hc x hx)
  · rw [hnodes]
    refine hnodup.map_on fun i hi j hj h => node_inj ?_ ?_ h
    · exact hgathers.nonneg hplaced ((hindices i).1 hi)
    · exact hgathers.nonneg hplaced ((hindices j).1 hj)
  · intro edge hedge
    obtain ⟨c, hc, hedge⟩ := List.mem_flatMap.1 hedge
    obtain ⟨x, hx, rfl⟩ := List.mem_map.1 hedge
    exact ⟨hnode x (hparents c hc x hx), hnode _ (hindex c hc)⟩

end Outcome

/-! ## Results of runs -/

namespace Engine

/-- What a run built on is shown after any later calls. -/
theorem Grounded.shows_later {x e : Engine} {G : Set Nat} (hG : x.Grounded G) (hx : x.Shown)
    (hlater : x.reset.Later e) : x.derivation.Shows G (e.derivationAt x.derivation.number) := by
  have hguards : x.Guards x.derivation G := by
    refine ⟨hx.earlier, le_refl _, fun k hk => ?_, hG.knowledge⟩
    obtain ⟨c, hc, -⟩ := hG.closed k hk
    refine ⟨c, hc, ?_⟩
    rw [derivationAt, if_pos rfl, hc]
  exact (hguards.reset.later hlater).shows

/-- From a root on which a run built only positions are reached at which a clause stands, one that was registered last
there. -/
theorem Grounded.placed_later {x e : Engine} {G : Set Nat} {root : Int} (hG : x.Grounded G) (hx : x.Shown)
    (hindexed : x.reset.derivation.Indexed) (hroot : ∃ j ∈ G, root = (j : Int)) (hlater : x.reset.Later e) :
    (e.derivationAt x.derivation.number).Placed root ∧
      ∀ i, (e.derivationAt x.derivation.number).Reaches root i → (e.derivationAt x.derivation.number).Within i := by
  have hshows := hG.shows_later hx hlater
  have hreset : x.derivation.Shows G x.reset.derivation := by
    have hat : x.reset.derivationAt x.derivation.number = x.reset.derivation := if_pos (frame_reset x).1.symm
    exact hat ▸ hG.shows_later hx .refl
  constructor
  · intro i c hi hstands
    obtain ⟨j, hj, rfl⟩ := hshows.of_reaches hG.closed hroot hi
    obtain ⟨b, hb, hbe⟩ := hshows j hj
    obtain ⟨b', hb', hbr⟩ := hreset j hj
    obtain rfl : b = b' := Option.some.inj (hb.symm.trans hb')
    have hget := Derivation.get?_eq_some_iff.2 hstands
    rw [Derivation.get?_natCast, hbe, Option.some.injEq] at hget
    subst hget
    exact ⟨by omega, hindexed j b hbr⟩
  · intro i hi
    have hsome := hshows.isSome (hshows.of_reaches hG.closed hroot hi)
    exact Derivation.isSome_get?_iff.1 hsome

end Engine

namespace Session

variable {s s' : Session} {options : RunOptions} {o : Outcome} {printed : Option String}
  {snapshots : Option (List Engine.View)} {answers : Option (List Answer)} {r : Run} {root : Int}

/-- A run that returns a result has come to its end. -/
theorem finish_of_run {hooks : List (Int × Action)}
    (hrun : s.run options hooks = (.run (.ok o) printed snapshots answers, s')) : ∃ goal verdict p,
      finish s.current options goal verdict p = (.run (.ok o) printed snapshots answers, s') := by
  unfold Session.run at hrun
  split at hrun
  · cases hrun
  dsimp only at hrun
  split at hrun
  · exact ⟨_, _, _, hrun⟩
  · split at hrun
    · exact ⟨_, _, _, hrun⟩
    · cases hrun

/-- The result of a run shows the derivation with which the engine is left, and that knows where its clauses stand. -/
theorem indexed_of_run {hooks : List Hook} (hs : ∀ n, (s.engineAt n).Momentary)
    (hrun : s.run options (Hook.actions hooks) = (.run (.ok o) printed snapshots answers, s'))
    (hlast : s'.runs.getLast? = some (s.current, r)) :
    o = (s'.engineAt s.current).outcome r ∧ o.derivation.Indexed := by
  have hindexed : (s'.engineAt s.current).Indexed := by
    have hholds : s.Holds Engine.Indexed Engine.Indexed ∅ := by
      intro n
      have := hs n _ _ Engine.invariant_indexed
      exact ⟨this, fun _ => this⟩
    have hafter := hholds.run Engine.invariant_indexed (Hook.keeps_actions Engine.invariant_indexed hooks) options
    rw [hrun] at hafter
    exact (hafter s.current).1
  obtain ⟨goal, verdict, p, hfinish⟩ := finish_of_run hrun
  obtain ⟨hengine, rfl, rfl⟩ := engine_of_finish hfinish hlast
  rw [hengine] at hindexed ⊢
  refine ⟨rfl, ?_⟩
  have hat : ((p.session.engineAt s.current).reset.outcome
      ⟨goal, (p.session.engineAt s.current).derivation.number, p.laps, verdict⟩).derivation =
      (p.session.engineAt s.current).reset.derivation := if_pos (Engine.frame_reset _).1.symm
  rw [hat]
  exact hindexed.present

/-- The steps of the proof of the last result. -/
def lastProof (s : Session) : Option (List Clause) :=
  s.runs.getLast?.bind fun run => ((s.engineAt run.1).outcome run.2).proof.toOption

/-- A run whose last result is a proof returns it. -/
theorem exists_proven {hooks : List Hook} (hs : ∀ n, (s.engineAt n).Momentary) (hgoal : s.engine.goal.isSome = true)
    (habort : options.abort = none)
    (hverdict : (s.run options (Hook.actions hooks)).2.runs.getLast?.map (·.2.verdict) = some (.proven root)) :
    ∃ o printed snapshots answers s' r,
      s.run options (Hook.actions hooks) = (.run (.ok o) printed snapshots answers, s') ∧
      s'.runs.getLast? = some (s.current, r) ∧ o.verdict = .proven root ∧ s'.lastProof = o.proof.toOption := by
  obtain ⟨goal, hgoal⟩ := Option.isSome_iff_exists.1 hgoal
  obtain ⟨o, printed, snapshots, answers, s', r, hrun, hlast⟩ := exists_result options (Hook.actions hooks) hgoal habort
  have ho := (indexed_of_run hs hrun hlast).1
  rw [hrun, hlast] at hverdict
  refine ⟨o, printed, snapshots, answers, s', r, hrun, hlast, ?_, ?_⟩
  · rw [ho]
    exact Option.some.inj hverdict
  · rw [lastProof, hlast, ho]
    rfl

/-- **What is written of a result is read as its proof, unless a label ends with a backslash.**  The run may be one that
hooks accompany, and may itself be called by a hook in the middle of another run.  If its support was asserted, as it is
between runs and whenever a goal has just been set, there is a proof, now and after any later calls.  Otherwise the
support names parents by positions of another derivation, and there may be none; if there is one, and no index in it is
counted from the end, it is drawn in the same way. -/
theorem drawn_unless_backslash {hooks : List Hook} (hs : ∀ n, (s.engineAt n).Momentary)
    (hrun : s.run options (Hook.actions hooks) = (.run (.ok o) printed snapshots answers, s'))
    (hlast : s'.runs.getLast? = some (s.current, r)) (hproven : o.verdict = .proven root) :
    ((∀ c ∈ s.engine.support.toList, c.parents = []) → (∃ steps, o.Drawn steps) ∧
      ∀ e, (s'.engineAt s.current).Later e → ∃ steps, (e.outcome r).Drawn steps) ∧
    ∀ steps, o.proof = .ok steps → (∀ i, o.derivation.Reaches root i → 0 ≤ i) → o.Drawn steps := by
  obtain ⟨ho, hindexed⟩ := indexed_of_run hs hrun hlast
  refine ⟨fun hasserted => ?_, fun steps hproof hfront => ?_⟩
  · have hshown : ∀ n, (s.engineAt n).Shown := fun n => hs n _ _ Engine.invariant_shown
    obtain ⟨x, hx, hengine, hnumber, hox, hrests⟩ := rests_run hshown hasserted hrun hlast
    have hverdict : r.verdict = .proven root := by
      rw [hox] at hproven
      exact hproven
    obtain ⟨G, hG, hroot⟩ := hrests root hverdict
    have hreset : x.reset.derivation.Indexed := by
      have hat : (x.reset.outcome r).derivation = x.reset.derivation :=
        if_pos (hnumber.trans (Engine.frame_reset x).1.symm)
      rw [hox, hat] at hindexed
      exact hindexed
    have hdrawn : ∀ e, x.reset.Later e → ∃ steps, (e.outcome r).Drawn steps := by
      intro e hlater
      obtain ⟨hplaced, hwithin⟩ := hG.placed_later hx hreset hroot hlater
      rw [← hnumber] at hplaced hwithin
      have hverdict : (e.outcome r).verdict = .proven root := hverdict
      rcases Outcome.gathered_or_stray hverdict with ⟨-, steps, hproof, -⟩ | ⟨i, hi, hstray, -⟩
      · exact ⟨steps, Outcome.drawn_of_placed hverdict hplaced hproof⟩
      · exact absurd (hwithin i hi) hstray
    rw [hengine] at ho ⊢
    refine ⟨?_, hdrawn⟩
    rw [ho]
    exact hdrawn _ .refl
  · exact Outcome.drawn_of_placed hproven (hindexed.placed hfront) hproof

/-- Backslashes and quotes in the middle of labels are read back. -/
theorem drawn_unless_backslash_quoted :
    let s := (Step.performAll [.add "p\\\" v q", .add "~p\\\"", .goal "q"] {}).2
    let hooks : List Hook := [.mk 1 [.resolve (.knowledge 0) (some (.made (Clause.parse 0 "x")))]]
    (∀ n, (s.engineAt n).Momentary) ∧ (∀ c ∈ s.engine.support.toList, c.parents = []) ∧
      ∃ o printed snapshots answers s' r root steps text,
        s.run {} (Hook.actions hooks) = (.run (.ok o) printed snapshots answers, s') ∧
        s'.runs.getLast? = some (s.current, r) ∧ o.verdict = .proven root ∧ o.proof = .ok steps ∧
        steps.map Clause.name = ["p\\\" v q", "~p\\\"", "~q", "p\\\"", "NIL"] ∧ o.graph = .ok text ∧
        Dot.read text = some (Outcome.chart steps) := by
  intro s hooks
  have hs : ∀ n, (s.engineAt n).Momentary := momentary_performAll _
  have hasserted : ∀ c ∈ s.engine.support.toList, c.parents = [] := by decide +kernel
  have hgoal : s.engine.goal.isSome = true := by decide +kernel
  have hverdict : (s.run {} (Hook.actions hooks)).2.runs.getLast?.map (·.2.verdict) = some (.proven 6) := by
    decide +kernel
  have hnames : (s.run {} (Hook.actions hooks)).2.lastProof.map (·.map Clause.name) =
      some ["p\\\" v q", "~p\\\"", "~q", "p\\\"", "NIL"] := by
    decide +kernel
  clear_value s
  obtain ⟨o, printed, snapshots, answers, s', r, hrun, hlast, hproven, hproof⟩ := exists_proven hs hgoal rfl hverdict
  obtain ⟨⟨steps, hdrawn⟩, -⟩ := (drawn_unless_backslash hs hrun hlast hproven).1 hasserted
  obtain ⟨text, htext, hread⟩ := hdrawn.text
  rw [hrun, hproof, hdrawn.proof] at hnames
  have hnames := Option.some.inj hnames
  refine ⟨hs, hasserted, o, printed, snapshots, answers, s', r, 6, steps, text, hrun, hlast, hproven, hdrawn.proof,
    hnames, htext, hread.2 fun c hc => ?_⟩
  have hquotable : ∀ name ∈ ["p\\\" v q", "~p\\\"", "~q", "p\\\"", "NIL"], Quotable name.toList := by
    decide +kernel
  exact hquotable c.name (hnames ▸ List.mem_map_of_mem hc)

/-- **A label that ends with a backslash is not read back.**  The quote behind it is taken for a quote of the label. -/
theorem misread_after_backslash :
    let s := (Step.performAll [.add "a\\", .goal "a\\"] {}).2
    (∀ n, (s.engineAt n).Momentary) ∧ (∀ c ∈ s.engine.support.toList, c.parents = []) ∧
      ∃ o printed snapshots answers s' r root steps text,
        s.run {} (Hook.actions []) = (.run (.ok o) printed snapshots answers, s') ∧
        s'.runs.getLast? = some (s.current, r) ∧ o.verdict = .proven root ∧ o.proof = .ok steps ∧
        steps.map Clause.name = ["a\\", "~a\\", "NIL"] ∧ o.graph = .ok text ∧ Dot.read text = none := by
  intro s
  have hs : ∀ n, (s.engineAt n).Momentary := momentary_performAll _
  have hasserted : ∀ c ∈ s.engine.support.toList, c.parents = [] := by decide +kernel
  have hgoal : s.engine.goal.isSome = true := by decide +kernel
  have hverdict : (s.run {} (Hook.actions [])).2.runs.getLast?.map (·.2.verdict) = some (.proven 2) := by
    decide +kernel
  have hnames : (s.run {} (Hook.actions [])).2.lastProof.map (·.map Clause.name) =
      some ["a\\", "~a\\", "NIL"] := by
    decide +kernel
  have hscan : (s.run {} (Hook.actions [])).2.lastProof.map (fun steps =>
      scan ((Outcome.drawingLines steps).flatMap fun line => line.toList ++ ['\n'])) = some none := by
    decide +kernel
  clear_value s
  obtain ⟨o, printed, snapshots, answers, s', r, hrun, hlast, hproven, hproof⟩ := exists_proven hs hgoal rfl hverdict
  rw [hrun, hproof] at hnames hscan
  cases hsteps : o.proof with
  | error fault => simp [hsteps, Except.toOption] at hnames
  | ok steps =>
    rw [hsteps] at hnames hscan
    have hscan : scan (Outcome.drawing steps).toList = none := by
      rw [Outcome.drawing, toList_unlines]
      exact Option.some.inj hscan
    refine ⟨hs, hasserted, o, printed, snapshots, answers, s', r, 2, steps, _, hrun, hlast, hproven, hsteps,
      Option.some.inj hnames, Outcome.graph_eq hsteps, ?_⟩
    rw [Dot.read, hscan]
    rfl

end Session

end Clausal
