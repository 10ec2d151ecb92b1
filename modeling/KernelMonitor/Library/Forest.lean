import Mathlib

/-! # Forests given by children

Paths down from a list of roots, by the children of each node, and the order in which
a preorder walk meets them. Nothing has to be well founded: the walk counts the levels
it may go down, and a node may be its own descendant. What lies below a top is a tree
all the same.
-/

namespace KernelMonitor.Library

variable {α : Type*}

/-- A path down from a root to a node, with both ends. -/
inductive PathTo (children : α → List α) (roots : List α) : List α → α → Prop where
  | root {a : α} (listed : a ∈ roots) : PathTo children roots [a] a
  | down {path : List α} {a b : α} (above : PathTo children roots path a)
      (child : b ∈ children a) : PathTo children roots (path ++ [b]) b

/-- The way up from a node to a top: its ancestors, the top first. -/
inductive Ancestry (top : α → Prop) (parent : α → α → Prop) : α → List α → Prop where
  | top {a : α} (highest : top a) : Ancestry top parent a []
  | climb {a b : α} {above : List α} (up : parent a b) (rest : Ancestry top parent b above) :
      Ancestry top parent a (above ++ [b])

/-- The preorder of the paths that go on from a trail through a node, some levels of
    them. -/
def walk (children : α → List α) : Nat → List α → α → List (List α)
  | 0, _, _ => []
  | levels + 1, trail, a =>
      (trail ++ [a]) :: (children a).flatMap (walk children levels (trail ++ [a]))

/-- The walks through several nodes, one after the other. -/
def walks (children : α → List α) (levels : Nat) (trail nodes : List α) : List (List α) :=
  nodes.flatMap (walk children levels trail)

/-- One path comes below another in a walk: what stands between is at least as deep. -/
def Under (rows : List (List α)) (above path : List α) : Prop :=
  ∃ before between after, rows = before ++ above :: (between ++ path :: after) ∧
    ∀ row ∈ between, path.length ≤ row.length

theorem Under.extend {rows : List (List α)} {above path : List α} (under : Under rows above path)
    (front back : List (List α)) : Under (front ++ rows ++ back) above path := by
  obtain ⟨before, between, after, rfl, deeper⟩ := under
  exact ⟨front ++ before, between, after ++ back, by simp, deeper⟩

section Walk

variable {children : α → List α}

theorem PathTo.getLast {roots path : List α} {a : α} (found : PathTo children roots path a) :
    path.getLast? = some a := by
  cases found with
  | root => rfl
  | down => simp

theorem walk_succ (levels : Nat) (trail : List α) (a : α) :
    walk children (levels + 1) trail a =
      (trail ++ [a]) :: walks children levels (trail ++ [a]) (children a) := rfl

theorem walks_append (levels : Nat) (trail front back : List α) :
    walks children levels trail (front ++ back) =
      walks children levels trail front ++ walks children levels trail back :=
  List.flatMap_append

theorem walks_cons (levels : Nat) (trail : List α) (a : α) (nodes : List α) :
    walks children levels trail (a :: nodes) =
      walk children levels trail a ++ walks children levels trail nodes :=
  List.flatMap_cons

/-- Leaving out nodes leaves out their walks. -/
theorem walks_filter (keep : α → Bool) (levels : Nat) (trail nodes : List α) :
    walks children levels trail (nodes.filter keep) =
      nodes.flatMap fun a => if keep a then walk children levels trail a else [] := by
  induction nodes with
  | nil => rfl
  | cons a nodes ih =>
      rw [List.flatMap_cons, List.filter_cons, ← ih]
      by_cases kept : keep a = true
      · rw [if_pos kept, if_pos kept, walks_cons]
      · rw [if_neg kept, if_neg kept, List.nil_append]

theorem mem_walks {levels : Nat} {trail nodes path : List α} :
    path ∈ walks children levels trail nodes ↔
      ∃ a ∈ nodes, path ∈ walk children levels trail a :=
  List.mem_flatMap

theorem walk_goes_on {levels : Nat} {trail path : List α} {a : α}
    (member : path ∈ walk children levels trail a) : ∃ rest, path = trail ++ a :: rest := by
  induction levels generalizing trail a with
  | zero => cases member
  | succ levels ih =>
      rw [walk_succ] at member
      cases member with
      | head => exact ⟨[], rfl⟩
      | tail _ deeper =>
          obtain ⟨child, _, member⟩ := mem_walks.mp deeper
          obtain ⟨rest, rfl⟩ := ih member
          exact ⟨child :: rest, by simp⟩

theorem walks_longer {levels : Nat} {trail nodes path : List α}
    (member : path ∈ walks children levels trail nodes) : trail.length < path.length := by
  obtain ⟨a, _, member⟩ := mem_walks.mp member
  obtain ⟨rest, rfl⟩ := walk_goes_on member
  simp

/-- What a walk meets are paths from the roots. -/
theorem walk_sound {roots : List α} {levels : Nat} {trail path : List α} {a : α}
    (reached : PathTo children roots (trail ++ [a]) a)
    (member : path ∈ walk children levels trail a) : ∃ b, PathTo children roots path b := by
  induction levels generalizing trail a with
  | zero => cases member
  | succ levels ih =>
      rw [walk_succ] at member
      cases member with
      | head => exact ⟨a, reached⟩
      | tail _ deeper =>
          obtain ⟨child, isChild, member⟩ := mem_walks.mp deeper
          exact ih (reached.down isChild) member

theorem walks_sound {roots path : List α} {levels : Nat}
    (member : path ∈ walks children levels [] roots) : ∃ a, PathTo children roots path a := by
  obtain ⟨root, listed, member⟩ := mem_walks.mp member
  exact walk_sound (.root listed) member

/-- A walk that meets a path meets its continuations, as long as there are levels left. -/
theorem walk_down {levels : Nat} {trail path : List α} {a b c : α}
    (member : path ∈ walk children levels trail a) (last : path.getLast? = some b)
    (child : c ∈ children b) (room : path.length < trail.length + levels) :
    path ++ [c] ∈ walk children levels trail a := by
  induction levels generalizing trail a with
  | zero => cases member
  | succ levels ih =>
      rw [walk_succ] at member ⊢
      cases member with
      | head =>
          obtain rfl : a = b := by simpa using last
          simp only [List.length_append, List.length_singleton] at room
          obtain ⟨below, rfl⟩ : ∃ below, levels = below + 1 := ⟨levels - 1, by omega⟩
          exact .tail _ (mem_walks.mpr ⟨c, child, by simp [walk_succ]⟩)
      | tail _ deeper =>
          obtain ⟨next, isChild, member⟩ := mem_walks.mp deeper
          refine .tail _ (mem_walks.mpr ⟨next, isChild, ih member ?_⟩)
          simp only [List.length_append, List.length_singleton]
          omega

/-- A walk with enough levels meets every path. -/
theorem walks_complete {roots path : List α} {a : α} (found : PathTo children roots path a)
    {levels : Nat} (room : path.length ≤ levels) : path ∈ walks children levels [] roots := by
  induction found with
  | @root a listed =>
      obtain ⟨below, rfl⟩ : ∃ below, levels = below + 1 := ⟨levels - 1, by simp at room; omega⟩
      exact mem_walks.mpr ⟨a, listed, by simp [walk_succ]⟩
  | @down path a b above child ih =>
      simp only [List.length_append, List.length_singleton] at room
      obtain ⟨root, listed, member⟩ := mem_walks.mp (ih (by omega))
      exact mem_walks.mpr
        ⟨root, listed, walk_down member above.getLast child (by simp only [List.length_nil]; omega)⟩

theorem walks_nodup (distinct : ∀ a, (children a).Nodup) (levels : Nat) (trail : List α)
    {nodes : List α} (nodup : nodes.Nodup) : (walks children levels trail nodes).Nodup := by
  induction levels generalizing trail nodes with
  | zero =>
      have none : walks children 0 trail nodes = [] := by simp [walks, walk]
      exact none ▸ .nil
  | succ levels ih =>
      refine List.nodup_flatMap.mpr ⟨fun a _ => ?_, nodup.imp fun {a b} differ => ?_⟩
      · rw [walk_succ, List.nodup_cons]
        exact ⟨fun again => absurd (walks_longer again) (lt_irrefl _), ih _ (distinct a)⟩
      · intro path fromA fromB
        obtain ⟨rest, rfl⟩ := walk_goes_on fromA
        obtain ⟨rest', same⟩ := walk_goes_on fromB
        exact differ (List.cons.inj (List.append_cancel_left same)).1

/-- A walk meets a path right after what it met below the path's own parent. -/
theorem walk_under {levels : Nat} {trail path : List α} {a b : α}
    (member : path ++ [b] ∈ walk children levels trail a) (longer : trail.length < path.length) :
    Under (walk children levels trail a) path (path ++ [b]) := by
  induction levels generalizing trail a with
  | zero => cases member
  | succ levels ih =>
      rw [walk_succ] at member ⊢
      rcases List.mem_cons.mp member with same | deeper
      · have := congrArg List.length same
        simp only [List.length_append, List.length_singleton] at this
        omega
      · obtain ⟨child, isChild, inside⟩ := mem_walks.mp deeper
        by_cases here : path.length = (trail ++ [a]).length
        · obtain ⟨rest, same⟩ := walk_goes_on inside
          obtain rfl : path = trail ++ [a] := (List.append_inj same here).1
          obtain ⟨between, after, split⟩ := List.append_of_mem deeper
          refine ⟨[], between, after, by rw [split]; rfl, fun row earlier => ?_⟩
          have longer := walks_longer (split ▸ List.mem_append_left _ earlier)
          simp only [List.length_append, List.length_singleton] at longer ⊢
          omega
        · simp only [List.length_append, List.length_singleton] at here
          obtain ⟨front, back, split⟩ := List.append_of_mem isChild
          have under := ih inside (by simp; omega)
          have extended := under.extend
            ((trail ++ [a]) :: walks children levels (trail ++ [a]) front)
            (walks children levels (trail ++ [a]) back)
          rw [split, walks_append, walks_cons]
          simpa using extended

theorem walks_under {levels : Nat} {path roots : List α} {b : α}
    (member : path ++ [b] ∈ walks children levels [] roots) (longer : path ≠ []) :
    Under (walks children levels [] roots) path (path ++ [b]) := by
  obtain ⟨root, listed, inside⟩ := mem_walks.mp member
  obtain ⟨front, back, rfl⟩ := List.append_of_mem listed
  have under := walk_under inside (List.length_pos_of_ne_nil longer)
  rw [walks_append, walks_cons, ← List.append_assoc]
  exact under.extend _ _

theorem take_of_takes (front back : List (List α)) (budget : Nat) :
    (front ++ back).take budget = (front.take budget ++ back.take budget).take budget := by
  have rest : budget - front.length = min (budget - min budget front.length) budget := by omega
  rw [List.take_append, List.take_append, List.take_take, List.take_take, List.length_take,
    min_self, ← rest]

/-- The first rows of a walk do not depend on the levels, once there are as many. -/
theorem take_walks {budget levels levels' : Nat} (deep : budget ≤ levels)
    (deep' : budget ≤ levels') (trail nodes : List α) :
    (walks children levels trail nodes).take budget =
      (walks children levels' trail nodes).take budget := by
  induction budget generalizing levels levels' trail nodes with
  | zero => simp
  | succ budget ih =>
      obtain ⟨below, rfl⟩ : ∃ below, levels = below + 1 := ⟨levels - 1, by omega⟩
      obtain ⟨below', rfl⟩ : ∃ below', levels' = below' + 1 := ⟨levels' - 1, by omega⟩
      cases nodes with
      | nil => rfl
      | cons a nodes =>
          have kids := ih (by omega : budget ≤ below) (by omega : budget ≤ below') (trail ++ [a])
            (children a)
          have rest := ih (by omega : budget ≤ below + 1) (by omega : budget ≤ below' + 1) trail
            nodes
          simp only [walks_cons, walk_succ, List.cons_append, List.take_succ_cons]
          rw [take_of_takes, kids, rest, ← take_of_takes]

end Walk

/-! ## Below the tops -/

/-- The children come from a parent relation. A top has no parent, and any other root
    has at most itself. -/
structure Parented (children : α → List α) (tops others : List α) (top : α → Prop)
    (parent : α → α → Prop) : Prop where
  kids : ∀ a b, b ∈ children a ↔ parent b a
  one : ∀ {a b c}, parent a b → parent a c → b = c
  highest : ∀ a, a ∈ tops ↔ top a
  free : ∀ {a b}, a ∈ tops → ¬ parent a b
  entry : ∀ {a b}, a ∈ others → parent a b → b = a

namespace Parented

variable {children : α → List α} {tops others : List α} {top : α → Prop} {parent : α → α → Prop}

theorem onlyTops (forest : Parented children tops others top parent) :
    Parented children tops [] top parent :=
  { forest with entry := by simp }

theorem not_own_parent (forest : Parented children tops others top parent) {a : α}
    {above : List α} (settled : Ancestry top parent a above) : ¬ parent a a := by
  induction settled with
  | top highest => exact forest.free ((forest.highest _).mpr highest)
  | climb up rest ih =>
      intro own
      obtain rfl := forest.one up own
      exact ih own

/-- A node below a top is on one path, that of its ancestors. -/
theorem path_iff (forest : Parented children tops others top parent) {a : α}
    {above : List α} (settled : Ancestry top parent a above) (path : List α) :
    PathTo children (tops ++ others) path a ↔ path = above ++ [a] := by
  induction settled generalizing path with
  | top highest =>
      have listed := (forest.highest _).mpr highest
      constructor
      · intro found
        cases found with
        | root => rfl
        | down _ child => exact absurd ((forest.kids _ _).mp child) (forest.free listed)
      · intro same
        subst same
        exact .root (List.mem_append_left _ listed)
  | @climb a b above up rest ih =>
      have own := forest.not_own_parent (.climb up rest)
      constructor
      · intro found
        cases found with
        | root listed =>
            rcases List.mem_append.mp listed with inTops | inOthers
            · exact absurd up (forest.free inTops)
            · exact absurd (forest.entry inOthers up ▸ up) own
        | down higher child =>
            obtain rfl := forest.one up ((forest.kids _ _).mp child)
            rw [(ih _).mp higher]
      · intro same
        subst same
        exact .down ((ih _).mpr rfl) ((forest.kids _ _).mpr up)

theorem ancestry_unique (forest : Parented children tops others top parent) {a : α}
    {above above' : List α} (settled : Ancestry top parent a above)
    (settled' : Ancestry top parent a above') : above = above' := by
  have path := (forest.path_iff settled _).mpr rfl
  exact (List.append_inj ((forest.path_iff settled' _).mp path) (by
    simpa using congrArg List.length ((forest.path_iff settled' _).mp path))).1

/-- Every node on the path has its own ancestry, no longer than the whole. -/
theorem ancestry_of_mem {a x : α} {above : List α} (settled : Ancestry top parent a above)
    (member : x ∈ above ++ [a]) :
    ∃ higher, Ancestry top parent x higher ∧ higher.length ≤ above.length := by
  induction settled with
  | top highest =>
      obtain rfl := List.mem_singleton.mp member
      exact ⟨[], .top highest, le_rfl⟩
  | climb up rest ih =>
      rcases List.mem_append.mp member with earlier | last
      · obtain ⟨higher, settled, short⟩ := ih earlier
        exact ⟨higher, settled, short.trans (by simp)⟩
      · obtain rfl := List.mem_singleton.mp last
        exact ⟨_, .climb up rest, le_rfl⟩

theorem path_nodup (forest : Parented children tops others top parent) {a : α}
    {above : List α} (settled : Ancestry top parent a above) : (above ++ [a]).Nodup := by
  induction settled with
  | top => simp
  | climb up rest ih =>
      refine List.nodup_append.mpr ⟨ih, by simp, fun x earlier y last same => ?_⟩
      obtain rfl := List.mem_singleton.mp last
      subst same
      obtain ⟨higher, settled, short⟩ := ancestry_of_mem rest earlier
      have := congrArg List.length (forest.ancestry_unique settled (.climb up rest))
      simp only [List.length_append, List.length_singleton] at this
      omega

theorem ancestry_of_path (forest : Parented children tops others top parent) {a : α}
    {path : List α} (found : PathTo children tops path a) :
    ∃ above, Ancestry top parent a above := by
  induction found with
  | root listed => exact ⟨[], .top ((forest.highest _).mp listed)⟩
  | down _ child ih =>
      obtain ⟨above, settled⟩ := ih
      exact ⟨_, .climb ((forest.kids _ _).mp child) settled⟩

section Rows

variable {nodes : List α}

/-- Below the tops a walk has no more rows than there are nodes. -/
theorem length_walks_le (forest : Parented children tops others top parent)
    (distinct : ∀ a, (children a).Nodup) (nodup : tops.Nodup)
    (inside : ∀ a above, Ancestry top parent a above → a ∈ nodes) (levels : Nat) :
    (walks children levels [] tops).length ≤ nodes.length := by
  have sound {row : List α} (member : row ∈ walks children levels [] tops) :
      ∃ a above, Ancestry top parent a above ∧ row = above ++ [a] ∧ row.getLast? = some a := by
    obtain ⟨a, found⟩ := walks_sound member
    obtain ⟨above, settled⟩ := forest.ancestry_of_path found
    have found' : PathTo children (tops ++ []) row a := (List.append_nil tops).symm ▸ found
    exact ⟨a, above, settled, (forest.onlyTops.path_iff settled row).mp found', found.getLast⟩
  have ends : ((walks children levels [] tops).map List.getLast?).Nodup := by
    refine List.Nodup.map_on ?_ (walks_nodup distinct levels [] nodup)
    intro row member row' member' same
    obtain ⟨a, above, settled, rfl, last⟩ := sound member
    obtain ⟨a', above', settled', rfl, last'⟩ := sound member'
    obtain rfl : a = a' := Option.some.inj (last.symm.trans (same.trans last'))
    rw [forest.ancestry_unique settled settled']
  have among : (walks children levels [] tops).map List.getLast? ⊆ nodes.map some := by
    intro last member
    obtain ⟨row, row_mem, rfl⟩ := List.mem_map.mp member
    obtain ⟨a, above, settled, _, last⟩ := sound row_mem
    exact last ▸ List.mem_map_of_mem (inside a above settled)
  simpa using (ends.subperm among).length_le

theorem length_path_le (forest : Parented children tops others top parent)
    (inside : ∀ a above, Ancestry top parent a above → a ∈ nodes) {a : α} {above : List α}
    (settled : Ancestry top parent a above) : (above ++ [a]).length ≤ nodes.length := by
  have among : above ++ [a] ⊆ nodes := by
    intro x member
    obtain ⟨higher, settled, _⟩ := ancestry_of_mem settled member
    exact inside x higher settled
  exact ((forest.path_nodup settled).subperm among).length_le

/-- A walk from the tops meets the path of each node below them, under that of its parent. -/
theorem met_under (forest : Parented children tops others top parent) {levels : Nat} {a : α}
    {above : List α} (settled : Ancestry top parent a above)
    (deep : (above ++ [a]).length ≤ levels) :
    ∃ before after, walks children levels [] tops = before ++ (above ++ [a]) :: after ∧
      (above ≠ [] → ∃ front between, before = front ++ above :: between ∧
        ∀ row ∈ between, above.length + 1 ≤ row.length) := by
  have found : PathTo children tops (above ++ [a]) a := by
    simpa using (forest.onlyTops.path_iff settled _).mpr rfl
  have member := walks_complete found deep
  by_cases first : above = []
  · obtain ⟨before, after, met⟩ := List.append_of_mem member
    exact ⟨before, after, met, fun more => absurd first more⟩
  · obtain ⟨front, between, after, met, deeper⟩ := walks_under member first
    refine ⟨front ++ above :: between, after, by simp [met], fun _ => ⟨front, between, rfl, ?_⟩⟩
    simpa using deeper

/-- With room for all nodes a walk meets each node below a top once: at the end of its
    path, and under its parent. -/
theorem met_once (forest : Parented children tops others top parent)
    (distinct : ∀ a, (children a).Nodup) (nodup : (tops ++ others).Nodup)
    (inside : ∀ a above, Ancestry top parent a above → a ∈ nodes) {levels budget : Nat}
    (deep : nodes.length ≤ levels) (room : nodes.length ≤ budget) {a : α} {above : List α}
    (settled : Ancestry top parent a above) :
    ∃ before after, (walks children levels [] (tops ++ others)).take budget =
        before ++ (above ++ [a]) :: after ∧
      (∀ row ∈ before ++ after, row.getLast? ≠ some a) ∧
      (above ≠ [] → ∃ front between, before = front ++ above :: between ∧
        ∀ row ∈ between, above.length + 1 ≤ row.length) := by
  have short := forest.length_path_le inside settled
  obtain ⟨before, after, met, under⟩ := forest.met_under settled (short.trans deep)
  have fits := forest.length_walks_le distinct (List.nodup_append.mp nodup).1 inside levels
  have taken : (walks children levels [] (tops ++ others)).take budget =
      before ++ (above ++ [a]) :: (after ++ (walks children levels [] others).take
        (budget - (walks children levels [] tops).length)) := by
    rw [walks_append, List.take_append, List.take_of_length_le (fits.trans room), met]
    simp
  refine ⟨before, _, taken, fun row other last => ?_, under⟩
  have once := (walks_nodup distinct levels [] nodup).sublist (List.take_sublist budget _)
  rw [taken, List.nodup_middle, List.nodup_cons] at once
  have walked : row ∈ walks children levels [] (tops ++ others) := by
    refine List.mem_of_mem_take (i := budget) (taken ▸ ?_)
    rcases List.mem_append.mp other with early | late
    · exact List.mem_append_left _ early
    · exact List.mem_append_right _ (List.mem_cons_of_mem _ late)
  obtain ⟨b, reached⟩ := walks_sound walked
  obtain rfl : a = b := Option.some.inj (last.symm.trans reached.getLast)
  exact once.1 ((forest.path_iff settled row).mp reached ▸ other)

end Rows

end Parented

/-! ## Everything below a root -/

section Reached

variable {children : α → List α} {roots nodes : List α} {parent : α → α → Prop}

/-- No path leads to a node on a circle: it would have to enter the circle somewhere. -/
theorem PathTo.not_circular (kids : ∀ a b, b ∈ children a ↔ parent b a)
    (one : ∀ {a b c}, parent a b → parent a c → b = c)
    (entry : ∀ a ∈ roots, ∀ b, parent a b → b = a) {path : List α} {a : α}
    (found : PathTo children roots path a) :
    ¬ Relation.TransGen (fun a b => parent a b ∧ b ≠ a) a a := by
  intro cycle
  induction found with
  | root listed =>
      obtain ⟨b, ⟨up, other⟩, _⟩ := Relation.TransGen.head'_iff.mp cycle
      exact other (entry _ listed b up)
  | @down path a b _ child ih =>
      have up := (kids _ _).mp child
      obtain ⟨c, ⟨up', other⟩, back⟩ := Relation.TransGen.head'_iff.mp cycle
      obtain rfl := one up up'
      exact ih (Relation.TransGen.tail' back ⟨up, other⟩)

/-- Without a circle every climb among finitely many nodes ends at a root. -/
theorem reached_of_acyclic (kids : ∀ a b, b ∈ children a ↔ parent b a)
    (inside : ∀ {a b}, parent a b → a ∈ nodes ∧ b ∈ nodes)
    (entry : ∀ a ∈ nodes, (∀ b, parent a b → b = a) → a ∈ roots)
    (acyclic : ∀ a, ¬ Relation.TransGen (fun a b => parent a b ∧ b ≠ a) a a) :
    ∀ a ∈ nodes, ∃ path, PathTo children roots path a := by
  let Higher (x y : {a // a ∈ nodes}) : Prop :=
    Relation.TransGen (fun a b => parent a b ∧ b ≠ a) y.1 x.1
  have : IsTrans _ Higher := ⟨fun _ _ _ first second => second.trans first⟩
  have : Std.Irrefl Higher := ⟨fun x => acyclic x.1⟩
  have : Finite {a // a ∈ nodes} := List.finite_toSet nodes
  have founded : WellFounded Higher := Finite.wellFounded_of_trans_of_irrefl Higher
  suffices all : ∀ x : {a // a ∈ nodes}, ∃ path, PathTo children roots path x.1 from
    fun a member => all ⟨a, member⟩
  intro x
  induction x using founded.induction with
  | _ x ih =>
    by_cases higher : ∃ b, parent x.1 b ∧ b ≠ x.1
    · obtain ⟨b, up, other⟩ := higher
      obtain ⟨path, found⟩ := ih ⟨b, (inside up).2⟩ (.single ⟨up, other⟩)
      exact ⟨_, found.down ((kids _ _).mpr up)⟩
    · push Not at higher
      exact ⟨_, .root (entry x.1 x.2 higher)⟩

/-- Where the roots are the nodes without another parent, they reach every node just
    when no node is its own ancestor by way of another. -/
theorem all_reached_iff (kids : ∀ a b, b ∈ children a ↔ parent b a)
    (one : ∀ {a b c}, parent a b → parent a c → b = c)
    (inside : ∀ {a b}, parent a b → a ∈ nodes ∧ b ∈ nodes)
    (entry : ∀ a, a ∈ roots ↔ a ∈ nodes ∧ ∀ b, parent a b → b = a) :
    (∀ a ∈ nodes, ∃ path, PathTo children roots path a) ↔
      ∀ a, ¬ Relation.TransGen (fun a b => parent a b ∧ b ≠ a) a a := by
  constructor
  · intro reached a cycle
    obtain ⟨_, first, _⟩ := Relation.TransGen.head'_iff.mp cycle
    obtain ⟨path, found⟩ := reached a (inside first.1).1
    exact found.not_circular kids one (fun a root => ((entry a).mp root).2) cycle
  · apply reached_of_acyclic kids inside
    intro a member only
    exact (entry a).mpr ⟨member, only⟩

end Reached

end KernelMonitor.Library
