import Smrt.Authoring.Pulls

/-!
# What pruning removes

`pruneOrphanedPulled` goes by filenames: its worklist starts from those of the declared mods, and
follows the edges that a map from filenames to targets has. Where the filenames are distinct, this
is reachability among the rows: a row is `Reached` if some declared row leads to it by requirements
that are not optional, each the filename of the next row.

* `pruned_pruneOrphanedPulled`: the pulled rows that are not reached are removed, and nothing else
  changes (`Pruned`);
* `pruneOrphanedPulled_pruneOrphanedPulled`: what is left is pruned already, since a path to a row
  that stays is one through rows that stay.
-/

namespace Smrt

namespace DepFill

open Relation

/-- A row requires another one by its filename, and not as an option. -/
def Requires (m n : DeclaredMod) : Prop :=
  ∃ d, m.display = some d ∧ ∃ r ∈ d.requires, r.optional = false ∧ r.filename = n.filename

/-- A row of a config leads to another one. -/
def Leads (cfg : PackConfig) (m n : DeclaredMod) : Prop := n ∈ cfg.mods ∧ Requires m n

/-- A declared row leads, by a path through rows of the config, to the row. -/
def Reached (cfg : PackConfig) (m : DeclaredMod) : Prop :=
  ∃ root ∈ cfg.mods, root.pulled = false ∧ ReflTransGen (Leads cfg) root m

/-- A config without the pulled rows that are not reached. -/
structure Pruned (cfg out : PackConfig) : Prop where
  /-- The rows that are left are in their order. -/
  order : out.mods.Sublist cfg.mods
  removed : ∀ m ∈ cfg.mods, m ∉ out.mods ↔ m.pulled = true ∧ ¬ Reached cfg m
  declared : ∀ m ∈ cfg.mods, m.pulled = false → m ∈ out.mods
  rest : SameButMods cfg out

/-- The worklist of the pruning as it starts: the filenames of the declared mods, the last one on
top. -/
def declaredNames (cfg : PackConfig) : List String :=
  ((cfg.mods.filter fun m => !m.pulled).map fun m => m.filename).reverse

variable {cfg : PackConfig}

theorem mem_hardTargets {m n : DeclaredMod} : n.filename ∈ hardTargets m ↔ Requires m n := by
  rw [hardTargets, Requires]
  rcases m.display with _ | d
  · simp
  · simp [and_assoc]

theorem mem_pruneOrphanedPulled {m : DeclaredMod} : m ∈ (pruneOrphanedPulled cfg).mods ↔
    m ∈ cfg.mods ∧ (m.pulled = false ∨ m.filename ∈ reachable cfg) := by
  simp [pruneOrphanedPulled, List.mem_filter]

/-- The worklist comes to its end, with the names that are reachable. -/
theorem exists_iterate_pop_declaredNames (cfg : PackConfig) :
    ∃ n, (Worklist.pop (hardEdges cfg))^[n] (∅, declaredNames cfg) = (reachable cfg, []) :=
  Worklist.exists_iterate_pop Resolve.supported_hardEdges ∅ (declaredNames cfg)

section Distinct

variable (hnames : (cfg.mods.map DeclaredMod.filename).Nodup)

include hnames

/-- A filename is that of one row. -/
theorem eq_of_filename_eq {m n : DeclaredMod} (hm : m ∈ cfg.mods) (hn : n ∈ cfg.mods)
    (h : m.filename = n.filename) : m = n :=
  List.inj_on_of_nodup_map hnames hm hn h

/-- The edges from the name of a row are the requirements of the row. -/
theorem hardEdges_filename {m : DeclaredMod} (hm : m ∈ cfg.mods) :
    hardEdges cfg m.filename = hardTargets m := by
  have hkeys :
      ((cfg.mods.map fun m => (m.filename, hardTargets m)).reverse.map Prod.fst).Nodup := by
    rw [List.map_reverse, List.nodup_reverse, List.map_map]
    exact hnames
  have hmem : (m.filename, hardTargets m) ∈
      (cfg.mods.map fun m => (m.filename, hardTargets m)).reverse :=
    List.mem_reverse.2 (List.mem_map_of_mem hm)
  rw [hardEdges, lookup_eq_some hkeys hmem, Option.getD_some]

/-- The names that are reachable are, among the rows, those of the rows that are reached. -/
theorem mem_reachable_iff {m : DeclaredMod} (hm : m ∈ cfg.mods) :
    m.filename ∈ reachable cfg ↔ Reached cfg m := by
  rw [Resolve.mem_reachable, Reached]
  refine exists_congr fun root => and_congr_right fun hroot => and_congr_right fun _ => ?_
  constructor
  · intro h
    -- Forwards from the root, for whichever row of the config has the name.
    have hpath : ∀ f, ReflTransGen (fun f g => g ∈ hardEdges cfg f) root.filename f →
        ∀ n ∈ cfg.mods, n.filename = f → ReflTransGen (Leads cfg) root n := by
      intro f hf
      induction hf with
      | refl =>
        intro n hn hname
        rw [eq_of_filename_eq hnames hn hroot hname]
      | @tail f g _ hedge ih =>
        intro n hn hname
        obtain ⟨k, hk, rfl⟩ := Resolve.exists_of_mem_hardEdges hedge
        rw [hardEdges_filename hnames hk, ← hname] at hedge
        exact (ih k hk rfl).tail ⟨hn, mem_hardTargets.1 hedge⟩
    exact hpath _ h m hm rfl
  · intro h
    induction h with
    | refl => exact .refl
    | @tail k n hpath hstep ih =>
      have hk : k ∈ cfg.mods := by
        rcases ReflTransGen.cases_tail hpath with rfl | ⟨_, _, hlast⟩
        · exact hroot
        · exact hlast.1
      refine (ih hk).tail ?_
      rw [hardEdges_filename hnames hk]
      exact mem_hardTargets.2 hstep.2

theorem mem_pruneOrphanedPulled_iff {m : DeclaredMod} : m ∈ (pruneOrphanedPulled cfg).mods ↔
    m ∈ cfg.mods ∧ (m.pulled = false ∨ Reached cfg m) := by
  rw [mem_pruneOrphanedPulled]
  exact and_congr_right fun hm => or_congr_right (mem_reachable_iff hnames hm)

theorem pruned_pruneOrphanedPulled : Pruned cfg (pruneOrphanedPulled cfg) where
  order := List.filter_sublist
  removed m hm := by
    rw [mem_pruneOrphanedPulled_iff hnames, and_iff_right hm, not_or, Bool.not_eq_false]
  declared m hm hdeclared := mem_pruneOrphanedPulled.2 ⟨hm, .inl hdeclared⟩
  rest := rfl

/-- The rows on the way to a row that is reached are reached too: no path is cut. -/
theorem Reached.pruneOrphanedPulled {m : DeclaredMod} (h : Reached cfg m) :
    Reached (pruneOrphanedPulled cfg) m := by
  obtain ⟨root, hroot, hdeclared, hpath⟩ := h
  refine ⟨root, mem_pruneOrphanedPulled.2 ⟨hroot, .inl hdeclared⟩, hdeclared, ?_⟩
  induction hpath with
  | refl => exact .refl
  | @tail k n hpath hstep ih =>
    have hn : Reached cfg n := ⟨root, hroot, hdeclared, hpath.tail hstep⟩
    exact ih.tail ⟨(mem_pruneOrphanedPulled_iff hnames).2 ⟨hstep.1, .inr hn⟩, hstep.2⟩

/-- What is pruned is pruned already. -/
theorem pruneOrphanedPulled_pruneOrphanedPulled :
    pruneOrphanedPulled (pruneOrphanedPulled cfg) = pruneOrphanedPulled cfg := by
  have hdistinct : ((pruneOrphanedPulled cfg).mods.map DeclaredMod.filename).Nodup :=
    hnames.sublist (List.filter_sublist.map _)
  have hall : (pruneOrphanedPulled (pruneOrphanedPulled cfg)).mods =
      (pruneOrphanedPulled cfg).mods := by
    refine List.filter_eq_self.2 fun m hm => ?_
    rw [Bool.or_eq_true, Bool.not_eq_true', decide_eq_true_eq, mem_reachable_iff hdistinct hm]
    exact ((mem_pruneOrphanedPulled_iff hnames).1 hm).2.imp_right
      (Reached.pruneOrphanedPulled hnames)
  exact congrArg (fun mods => { cfg with mods }) hall

/-- Pruning comes to its end, and is exact: of the rows, those that are pulled and not reached are
removed; and there is nothing left to prune. -/
theorem pruning_exact : (∃ pops, (Worklist.pop (hardEdges cfg))^[pops] (∅, declaredNames cfg) =
      (reachable cfg, [])) ∧
    Pruned cfg (pruneOrphanedPulled cfg) ∧
    pruneOrphanedPulled (pruneOrphanedPulled cfg) = pruneOrphanedPulled cfg :=
  ⟨exists_iterate_pop_declaredNames cfg, pruned_pruneOrphanedPulled hnames,
    pruneOrphanedPulled_pruneOrphanedPulled hnames⟩

end Distinct

/-! ## A chain of libraries -/

/-- A row of the mirror's files with what it requires, and whether as an option. -/
def chainRow (filename : String) (pulled : Bool) (requires : List (String × Bool)) :
    DeclaredMod where
  filename
  defaultEnabled := true
  source := .smrtStatic ("mods/" ++ filename)
  display := some { Display.default with
    requires := requires.map fun r => ⟨r.1, none, r.2⟩ }
  slug := none
  pulled

/-- A mod with a chain of two libraries that require each other, another one that it would only like
to have, and one that requires what nothing provides. -/
def chainPack : PackConfig :=
  { PackConfig.empty "chain" with
    mods := [chainRow "lib2.jar" true [("lib1.jar", false)],
      chainRow "stray.jar" true [("x", false)],
      chainRow "app.jar" false [("lib1.jar", false), ("extra.jar", true), ("gone.jar", false)],
      chainRow "extra.jar" true [], chainRow "lib1.jar" true [("lib2.jar", false)]] }

example : (pruneOrphanedPulled chainPack).mods.map DeclaredMod.filename =
    ["lib2.jar", "app.jar", "lib1.jar"] := by decide +kernel

theorem pruning_exact_chainPack : (chainPack.mods.map DeclaredMod.filename).Nodup ∧
    (∃ pops, (Worklist.pop (hardEdges chainPack))^[pops] (∅, declaredNames chainPack) =
      (reachable chainPack, [])) ∧
    Pruned chainPack (pruneOrphanedPulled chainPack) ∧
    pruneOrphanedPulled (pruneOrphanedPulled chainPack) = pruneOrphanedPulled chainPack :=
  ⟨by decide, pruning_exact (by decide)⟩

end DepFill

end Smrt
