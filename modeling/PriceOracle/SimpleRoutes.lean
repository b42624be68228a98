import Mathlib.Combinatorics.SimpleGraph.Connectivity.Connected
import Mathlib.Data.Fintype.Card
import Mathlib.Data.List.Nodup

/-!
# Simple routes by backtracking

The routes of a multigraph from one vertex to another that visit no vertex twice, found by a
search that walks on from the last vertex and undoes each step when it returns. A step is
taken over an edge of a list; what is recorded of it is a label, such as the edge and the
direction it is walked in.
-/

namespace SimpleRoutes

variable {V L E : Type}

/-- The state that a search changes and restores: where it has been, by which steps, and the
routes that it found. -/
structure Search (V L : Type) where
  visited : List V
  route : List L
  routes : List (List L)

section Extend

variable (traverse : E → V → Option (V × L)) (edges : List E) (target : V)

/-- Takes the step over an edge, if there is one to a new vertex, and undoes it afterwards. -/
def tryEdge [DecidableEq V] (walkOn : V → Search V L → Option (Search V L)) (vertex : V) (search : Search V L)
    (edge : E) : Option (Search V L) :=
  match traverse edge vertex with
  | none => some search
  | some (next, label) =>
    if next ∈ search.visited then some search
    else
      (walkOn next ⟨search.visited ++ [next], search.route ++ [label], search.routes⟩).map
        fun search => ⟨search.visited.dropLast, search.route.dropLast, search.routes⟩

/-- Walks on from `vertex`, never back to a vertex that the route already visited. -/
def extend [DecidableEq V] : ℕ → V → Search V L → Option (Search V L)
  | 0, _, _ => none
  | fuel + 1, vertex, search =>
    if vertex = target then some { search with routes := search.routes ++ [search.route] }
    else edges.foldlM (tryEdge traverse (extend fuel) vertex) search

/-- What the search finds from a vertex: the routes to the target that avoid what is visited. -/
def RouteFrom : List V → V → List L → Prop
  | _, vertex, [] => vertex = target
  | visited, vertex, label :: labels => vertex ≠ target ∧ ∃ edge ∈ edges, ∃ next,
    traverse edge vertex = some (next, label) ∧ next ∉ visited ∧
      RouteFrom (visited ++ [next]) next labels

/-- The routes among them whose first step is over one of some edges. -/
def RouteVia (taken : List E) (visited : List V) (vertex : V) (labels : List L) : Prop :=
  ∃ edge ∈ taken, ∃ next label rest, labels = label :: rest ∧
    traverse edge vertex = some (next, label) ∧ next ∉ visited ∧
      RouteFrom traverse edges target (visited ++ [next]) next rest

/-- From one vertex, the steps over different edges have different labels. -/
def LabelsDiffer (taken : List E) : Prop :=
  ∀ vertex, taken.Pairwise fun edge edge' => ∀ next next' label,
    traverse edge vertex = some (next, label) → traverse edge' vertex ≠ some (next', label)

variable {traverse edges target}

theorem routeFrom_of_ne {visited : List V} {vertex : V} (h : vertex ≠ target) (labels : List L) :
    RouteFrom traverse edges target visited vertex labels ↔
      RouteVia traverse edges target edges visited vertex labels := by
  cases labels with
  | nil =>
    refine ⟨fun heq => absurd heq h, ?_⟩
    rintro ⟨_, -, _, _, _, hnil, -⟩
    cases hnil
  | cons label labels =>
    constructor
    · rintro ⟨-, edge, hedge, next, hstep, hnew, hrest⟩
      exact ⟨edge, hedge, next, label, labels, rfl, hstep, hnew, hrest⟩
    · rintro ⟨edge, hedge, next, _, _, heq, hstep, hnew, hrest⟩
      cases heq
      exact ⟨h, edge, hedge, next, hstep, hnew, hrest⟩

theorem routeVia_cons {edge : E} {taken : List E} {visited : List V} {vertex : V}
    {labels : List L} : RouteVia traverse edges target (edge :: taken) visited vertex labels ↔
      RouteVia traverse edges target [edge] visited vertex labels ∨
        RouteVia traverse edges target taken visited vertex labels := by
  simp only [RouteVia, List.mem_cons, List.not_mem_nil, or_false, or_and_right, exists_or,
    exists_eq_left]

theorem routeVia_disjoint {edge : E} {taken : List E} (hlabels : LabelsDiffer traverse (edge :: taken))
    {visited : List V} {vertex : V} {labels : List L}
    (h : RouteVia traverse edges target [edge] visited vertex labels) :
    ¬RouteVia traverse edges target taken visited vertex labels := by
  obtain ⟨_, hedge, next, label, rest, rfl, hstep, -⟩ := h
  obtain rfl := List.mem_singleton.mp hedge
  rintro ⟨edge', hedge', next', _, _, heq, hstep', -⟩
  cases heq
  exact List.rel_of_pairwise_cons (hlabels vertex) hedge' next next' label hstep hstep'

/-- The search is as it was, but for these routes on from where it is. -/
def Extends (found : List (List L)) (search search' : Search V L) : Prop :=
  search' = ⟨search.visited, search.route, search.routes ++ found.map (search.route ++ ·)⟩

theorem Extends.trans {found found' : List (List L)} {search search' search'' : Search V L}
    (h : Extends found search search') (h' : Extends found' search' search'') :
    Extends (found ++ found') search search'' := by
  unfold Extends at *
  subst h h'
  simp [List.append_assoc]

variable [DecidableEq V]

/-- What one edge adds: the routes that take it first. -/
theorem tryEdge_spec {walkOn : V → Search V L → Option (Search V L)} {search : Search V L}
    (vertex : V) (edge : E)
    (hwalkOn : ∀ next label, next ∉ search.visited → ∃ found search',
      walkOn next ⟨search.visited ++ [next], search.route ++ [label], search.routes⟩ = some search' ∧
      Extends found ⟨search.visited ++ [next], search.route ++ [label], search.routes⟩ search' ∧
      (∀ labels, labels ∈ found ↔
        RouteFrom traverse edges target (search.visited ++ [next]) next labels) ∧ found.Nodup) :
    ∃ found search', tryEdge traverse walkOn vertex search edge = some search' ∧
      Extends found search search' ∧
      (∀ labels, labels ∈ found ↔
        RouteVia traverse edges target [edge] search.visited vertex labels) ∧ found.Nodup := by
  have hstays (h : ∀ labels, ¬RouteVia traverse edges target [edge] search.visited vertex labels)
      (heq : tryEdge traverse walkOn vertex search edge = some search) :
      ∃ found search', tryEdge traverse walkOn vertex search edge = some search' ∧
        Extends found search search' ∧
        (∀ labels, labels ∈ found ↔
          RouteVia traverse edges target [edge] search.visited vertex labels) ∧ found.Nodup :=
    ⟨[], search, heq, by simp [Extends], fun labels => by simp [h labels], List.nodup_nil⟩
  cases hstep : traverse edge vertex with
  | none =>
    refine hstays ?_ (by simp [tryEdge, hstep])
    rintro labels ⟨_, hedge, _, _, _, -, hstep', -⟩
    rw [List.mem_singleton.mp hedge, hstep] at hstep'
    cases hstep'
  | some step =>
    obtain ⟨next, label⟩ := step
    by_cases hnew : next ∈ search.visited
    · refine hstays ?_ (by simp [tryEdge, hstep, hnew])
      rintro labels ⟨_, hedge, _, _, _, -, hstep', hnew', -⟩
      rw [List.mem_singleton.mp hedge, hstep] at hstep'
      cases hstep'
      exact hnew' hnew
    · obtain ⟨found, search', hsearch, hextends, hfound, hnodup⟩ := hwalkOn next label hnew
      refine ⟨found.map (label :: ·), _, by simp only [tryEdge, hstep, if_neg hnew, hsearch]; rfl,
        ?_, fun labels => ?_, hnodup.map (List.cons_injective)⟩
      · unfold Extends at *
        subst hextends
        simp [Function.comp_def]
      · constructor
        · intro hmem
          obtain ⟨rest, hrest, rfl⟩ := List.mem_map.mp hmem
          exact ⟨edge, List.mem_singleton_self _, next, label, rest, rfl, hstep, hnew,
            (hfound rest).mp hrest⟩
        · rintro ⟨_, hedge, _, _, rest, rfl, hstep', -, hrest⟩
          rw [List.mem_singleton.mp hedge, hstep] at hstep'
          cases hstep'
          exact List.mem_map_of_mem ((hfound rest).mpr hrest)

/-- The search from a vertex terminates, restores what it changed, and adds each of the routes
from that vertex once. -/
theorem extend_spec [Fintype V] (hlabels : LabelsDiffer traverse edges) {fuel : ℕ} (search : Search V L)
    (hvisited : search.visited.Nodup) (hfuel : Fintype.card V < fuel + search.visited.length)
    (vertex : V) :
    ∃ found search', extend traverse edges target fuel vertex search = some search' ∧
      Extends found search search' ∧
      (∀ labels, labels ∈ found ↔
        RouteFrom traverse edges target search.visited vertex labels) ∧ found.Nodup := by
  induction fuel generalizing search vertex with
  | zero =>
    -- Every vertex has been visited before the fuel runs out.
    have := hvisited.length_le_card
    omega
  | succ fuel ih =>
    unfold extend
    by_cases hvertex : vertex = target
    · rw [if_pos hvertex]
      refine ⟨[[]], _, rfl, by simp [Extends], fun labels => ?_, List.nodup_singleton _⟩
      cases labels with
      | nil => simp [RouteFrom, hvertex]
      | cons label labels => simp [RouteFrom, hvertex]
    · rw [if_neg hvertex]
      simp only [routeFrom_of_ne hvertex]
      -- The loop over the edges: each adds the routes that take it first.
      have hloop (taken : List E) (htaken : LabelsDiffer traverse taken) (walked : Search V L)
          (hwalked : walked.visited = search.visited) :
          ∃ found search', taken.foldlM (tryEdge traverse (extend traverse edges target fuel) vertex)
              walked = some search' ∧ Extends found walked search' ∧
            (∀ labels, labels ∈ found ↔
              RouteVia traverse edges target taken search.visited vertex labels) ∧ found.Nodup := by
        induction taken generalizing walked with
        | nil => exact ⟨[], walked, rfl, by simp [Extends], by simp [RouteVia], List.nodup_nil⟩
        | cons edge taken ihtaken =>
          obtain ⟨found, search', hsearch, hextends, hfound, hnodup⟩ :=
            @tryEdge_spec _ _ _ traverse edges target _ (extend traverse edges target fuel) walked
              vertex edge fun next label hnew => by
                rw [hwalked] at hnew ⊢
                exact ih _ (by
                    rw [List.nodup_append]
                    exact ⟨hvisited, List.nodup_singleton _, by
                      rintro a ha b hb rfl
                      exact hnew (List.mem_singleton.mp hb ▸ ha)⟩)
                  (by simp only [List.length_append, List.length_singleton]; omega) next
          obtain ⟨found', search'', hsearch', hextends', hfound', hnodup'⟩ :=
            ihtaken (fun v => (htaken v).of_cons) search' (by rw [hextends]; exact hwalked)
          refine ⟨found ++ found', search'', by simp [hsearch, hsearch'], hextends.trans hextends',
            fun labels => ?_, ?_⟩
          · rw [List.mem_append, routeVia_cons, hfound, hfound', hwalked]
          · refine List.nodup_append.mpr ⟨hnodup, hnodup', ?_⟩
            rintro labels hmem _ hmem' rfl
            rw [hfound, hwalked] at hmem
            exact routeVia_disjoint htaken hmem ((hfound' labels).mp hmem')
      exact hloop edges hlabels search rfl

end Extend

section Walks

variable (traverse : E → V → Option (V × L)) (edges : List E) (step step' : V → L → V → Prop)

/-- Some edge is walked from the one vertex to the other by this step. -/
def Steps (vertex : V) (label : L) (next : V) : Prop :=
  ∃ edge ∈ edges, traverse edge vertex = some (next, label)

/-- The steps chain, and visit these vertices after the first. -/
inductive Walks : V → List L → List V → Prop
  | nil (vertex : V) : Walks vertex [] []
  | cons {vertex next : V} {label : L} {labels : List L} {vertices : List V} :
    step vertex label next → Walks next labels vertices →
      Walks vertex (label :: labels) (next :: vertices)

/-- The steps chain from one vertex to the other, and visit no vertex twice. -/
def IsSimple (source target : V) (labels : List L) : Prop :=
  ∃ vertices, Walks step source labels vertices ∧ (source :: vertices).Nodup ∧
    (source :: vertices).getLast? = some target

variable {traverse edges step step'} {source target vertex next : V} {labels : List L}
  {visited vertices : List V}

theorem Walks.congr (hstep : ∀ a label b, a ≠ b → step a label b → step' a label b)
    (h : Walks step vertex labels vertices) (hnodup : (vertex :: vertices).Nodup) :
    Walks step' vertex labels vertices := by
  induction h with
  | nil vertex => exact .nil vertex
  | cons hfirst _ ih =>
    obtain ⟨hvertex, hnodup⟩ := List.nodup_cons.mp hnodup
    exact .cons (hstep _ _ _ (fun heq => hvertex (heq ▸ List.mem_cons_self)) hfirst) (ih hnodup)

/-- A simple route takes no step from a vertex to itself. -/
theorem isSimple_congr (hstep : ∀ a label b, a ≠ b → (step a label b ↔ step' a label b)) :
    IsSimple step source target labels ↔ IsSimple step' source target labels := by
  constructor
  · rintro ⟨vertices, hwalks, hnodup, hlast⟩
    exact ⟨vertices, hwalks.congr (fun a label b hne => (hstep a label b hne).mp) hnodup, hnodup, hlast⟩
  · rintro ⟨vertices, hwalks, hnodup, hlast⟩
    exact ⟨vertices, hwalks.congr (fun a label b hne => (hstep a label b hne).mpr) hnodup, hnodup, hlast⟩

/-- Where the search goes, in terms of the vertices it visits. -/
theorem routeFrom_iff (hvertex : vertex ∈ visited) :
    RouteFrom traverse edges target visited vertex labels ↔
      ∃ vertices, Walks (Steps traverse edges) vertex labels vertices ∧
        (vertex :: vertices).getLast? = some target ∧ vertices.Nodup ∧
        ∀ v ∈ vertices, v ∉ visited := by
  induction labels generalizing visited vertex with
  | nil =>
    constructor
    · intro h
      exact ⟨[], .nil vertex, by rw [List.getLast?_singleton, (h : vertex = target)], List.nodup_nil,
        by simp⟩
    · rintro ⟨_, _ | _, hlast, -⟩
      exact Option.some.inj (List.getLast?_singleton ▸ hlast)
  | cons label labels ih =>
    constructor
    · rintro ⟨-, edge, hedge, next, hstep, hnew, hrest⟩
      obtain ⟨vertices, hwalks, hlast, hnodup, hfresh⟩ :=
        (@ih _ (visited ++ [next]) (by simp)).mp hrest
      refine ⟨next :: vertices, .cons ⟨edge, hedge, hstep⟩ hwalks, ?_, ?_, ?_⟩
      · rwa [List.getLast?_cons_cons]
      · exact List.nodup_cons.mpr ⟨fun hmem => hfresh next hmem (by simp), hnodup⟩
      · rintro v (_ | ⟨_, hv⟩)
        · exact hnew
        · exact fun hmem => hfresh v hv (List.mem_append_left _ hmem)
    · rintro ⟨_, hwalks, hlast, hnodup, hfresh⟩
      cases hwalks with
      | @cons _ next _ _ vertices hstep hwalks =>
        obtain ⟨edge, hedge, hstep⟩ := hstep
        refine ⟨?_, edge, hedge, next, hstep, hfresh next List.mem_cons_self, ?_⟩
        · -- The target is a later vertex, and those are not visited yet.
          rintro rfl
          rw [List.getLast?_cons_cons] at hlast
          exact hfresh vertex (List.mem_of_getLast? hlast) hvertex
        · rw [List.getLast?_cons_cons] at hlast
          refine (ih (by simp)).mpr ⟨vertices, hwalks, hlast, hnodup.of_cons, fun v hv hmem => ?_⟩
          rcases List.mem_append.mp hmem with hmem | hmem
          · exact hfresh v (List.mem_cons_of_mem _ hv) hmem
          · exact (List.nodup_cons.mp hnodup).1 (List.mem_singleton.mp hmem ▸ hv)

theorem routeFrom_start_iff : RouteFrom traverse edges target [source] source labels ↔
    IsSimple (Steps traverse edges) source target labels := by
  rw [routeFrom_iff (List.mem_singleton_self source)]
  constructor
  · rintro ⟨vertices, hwalks, hlast, hnodup, hfresh⟩
    exact ⟨vertices, hwalks, List.nodup_cons.mpr
      ⟨fun hmem => hfresh source hmem (List.mem_singleton_self _), hnodup⟩, hlast⟩
  · rintro ⟨vertices, hwalks, hnodup, hlast⟩
    obtain ⟨hsource, hnodup⟩ := List.nodup_cons.mp hnodup
    refine ⟨vertices, hwalks, hlast, hnodup, fun v hv hmem => ?_⟩
    exact hsource (List.mem_singleton.mp hmem ▸ hv)

end Walks

section Reachability

variable {step : V → L → V → Prop} {source target vertex : V}
  {labels : List L} {vertices : List V}

/-- A chain of steps stays within what is connected. -/
theorem Walks.reachable {graph : SimpleGraph V}
    (hadj : ∀ a label b, step a label b → a ≠ b → graph.Adj a b)
    (h : Walks step vertex labels vertices) {v : V}
    (hlast : (vertex :: vertices).getLast? = some v) : graph.Reachable vertex v := by
  induction h with
  | nil vertex =>
    rw [List.getLast?_singleton, Option.some.injEq] at hlast
    rw [hlast]
  | @cons vertex next label labels vertices hstep _ ih =>
    rw [List.getLast?_cons_cons] at hlast
    by_cases heq : vertex = next
    · rw [heq]
      exact ih hlast
    · exact (hadj _ _ _ hstep heq).reachable.trans (ih hlast)

/-- A walk of the graph is taken by steps over the edges. -/
theorem exists_walks {graph : SimpleGraph V}
    (hadj : ∀ a b, graph.Adj a b → ∃ label, step a label b)
    (walk : graph.Walk source target) :
    ∃ labels vertices, Walks step source labels vertices ∧
      source :: vertices = walk.support := by
  induction walk with
  | nil => exact ⟨[], [], .nil _, rfl⟩
  | cons hstep walk ih =>
    obtain ⟨label, hlabel⟩ := hadj _ _ hstep
    obtain ⟨labels, vertices, hwalks, hsupport⟩ := ih
    exact ⟨label :: labels, _ :: vertices, .cons hlabel hwalks, by
      rw [SimpleGraph.Walk.support_cons, hsupport]⟩

/-- There is a simple route exactly where the two vertices are connected. -/
theorem exists_isSimple_iff [DecidableEq V] {graph : SimpleGraph V}
    (hadj : ∀ a b, graph.Adj a b ↔ a ≠ b ∧ ∃ label, step a label b) :
    (∃ labels, IsSimple step source target labels) ↔ graph.Reachable source target := by
  constructor
  · rintro ⟨labels, vertices, hwalks, -, hlast⟩
    exact hwalks.reachable (fun a label b hstep hne => (hadj a b).mpr ⟨hne, label, hstep⟩) hlast
  · rintro ⟨walk⟩
    have hpath := walk.toPath.2
    obtain ⟨labels, vertices, hwalks, hsupport⟩ :=
      exists_walks (fun a b h => ((hadj a b).mp h).2) walk.toPath.1
    refine ⟨labels, vertices, hwalks, hsupport ▸ hpath.support_nodup, ?_⟩
    rw [hsupport]
    exact List.getLast?_eq_some_getLast (SimpleGraph.Walk.support_ne_nil _) ▸
      congrArg some (SimpleGraph.Walk.getLast_support _)

end Reachability

end SimpleRoutes
