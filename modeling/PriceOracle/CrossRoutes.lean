import Mathlib.Data.List.Lex
import Mathlib.Data.Prod.Lex
import PriceOracle.CrossPrices
import PriceOracle.SimpleRoutes

/-!
# Routes of Cross pairs

`price-feed/src/cross.rs`: every simple route of Direct feeds from a pair's base to its quote, in
an order that depends only on the feeds. A feed is walked from its base to its quote, or back as
its reciprocal.
-/

namespace PriceOracle

instance : Fintype Asset where
  elems := {.lbtc, .usd, .usdt, .eurx, .depix, .usdc}
  complete asset := by cases asset <;> decide

namespace CrossRoute

abbrev Route := List ComputationPath

inductive CrossPairError where
  | sameAsset (pair : UInt32)
  | noRoute (pair : UInt32)
  deriving DecidableEq

section Code

/-- Traversed from its quote to its base, a feed contributes its reciprocal. -/
def traverse (feed : FeedDefinition) (position : Asset) : Option (Asset × ComputationPath) :=
  if feed.base = position then some (feed.quote, ⟨feed.id, false⟩)
  else if feed.quote = position then some (feed.base, ⟨feed.id, true⟩)
  else none

def directFeeds (feeds : List FeedDefinition) : List FeedDefinition :=
  feeds.filter fun feed => feed.kind = .direct

def feedIds (route : Route) : List ℕ := route.map fun leg => leg.feed.toNat

/-- The order of the routes: fewest legs first, equal lengths by their feed ids. -/
def Precedes (a b : Route) : Prop :=
  a.length < b.length ∨ (a.length = b.length ∧ feedIds a ≤ feedIds b)

instance : DecidableRel Precedes := fun _ _ => inferInstanceAs (Decidable (_ ∨ _))

/-- Every simple route of Direct feeds from the pair's base to its quote. The search visits an
asset at most once, so it is never deeper than there are assets. -/
def candidates (registry : FeedRegistry) (pair : FeedDefinition) :
    Option (Except CrossPairError (List Route)) :=
  if pair.base = pair.quote then some (.error (.sameAsset pair.id))
  else do
    let search ← SimpleRoutes.extend traverse (directFeeds registry.feeds) pair.quote
      (Fintype.card Asset) pair.base ⟨[pair.base], [], []⟩
    if search.routes.isEmpty then some (.error (.noRoute pair.id))
    else some (.ok (search.routes.insertionSort Precedes))

end Code

section Spec

/-- A Direct feed joins the two assets, and the leg walks it in this direction. -/
def Leads (feeds : List FeedDefinition) (asset : Asset) (leg : ComputationPath) (next : Asset) : Prop :=
  ∃ feed ∈ feeds, feed.kind = .direct ∧ leg.feed = feed.id ∧
    if leg.invert then feed.quote = asset ∧ feed.base = next
    else feed.base = asset ∧ feed.quote = next

/-- The legs chain from the base to the quote, and visit no asset twice. -/
def IsRoute (feeds : List FeedDefinition) (base quote : Asset) (route : Route) : Prop :=
  SimpleRoutes.IsSimple (Leads feeds) base quote route

/-- The assets as the Direct feeds join them. -/
def assetGraph (feeds : List FeedDefinition) : SimpleGraph Asset where
  Adj a b := a ≠ b ∧ ∃ leg, Leads feeds a leg b
  symm := ⟨by
    rintro a b ⟨hne, leg, feed, hfeed, hdirect, hid, hends⟩
    refine ⟨hne.symm, ⟨leg.feed, !leg.invert⟩, feed, hfeed, hdirect, hid, ?_⟩
    cases hinvert : leg.invert <;> simpa [hinvert, and_comm] using hends⟩
  loopless := ⟨fun _ h => h.1 rfl⟩

/-- The Direct feeds have different ids. -/
def DistinctIds (feeds : List FeedDefinition) : Prop :=
  ((directFeeds feeds).map FeedDefinition.id).Nodup

variable {feeds feeds' : List FeedDefinition} {feed feed' : FeedDefinition} {asset next : Asset}
  {leg : ComputationPath}

theorem mem_directFeeds : feed ∈ directFeeds feeds ↔ feed ∈ feeds ∧ feed.kind = .direct := by
  simp [directFeeds]

theorem traverse_eq_some (h : traverse feed asset = some (next, leg)) :
    leg.feed = feed.id ∧ if leg.invert then feed.quote = asset ∧ feed.base = next
      else feed.base = asset ∧ feed.quote = next := by
  unfold traverse at h
  split_ifs at h with hbase hquote
  · cases h
    exact ⟨rfl, by simpa using hbase⟩
  · cases h
    exact ⟨rfl, by simpa using hquote⟩

/-- Between different assets the code walks a feed in the one direction that leads on. -/
theorem steps_iff (hne : asset ≠ next) :
    SimpleRoutes.Steps traverse (directFeeds feeds) asset leg next ↔ Leads feeds asset leg next := by
  constructor
  · rintro ⟨feed, hfeed, hstep⟩
    obtain ⟨hmem, hdirect⟩ := mem_directFeeds.mp hfeed
    exact ⟨feed, hmem, hdirect, traverse_eq_some hstep⟩
  · rintro ⟨feed, hmem, hdirect, hid, hends⟩
    refine ⟨feed, mem_directFeeds.mpr ⟨hmem, hdirect⟩, ?_⟩
    obtain ⟨id, invert⟩ := leg
    subst hid
    unfold traverse
    cases invert
    · obtain ⟨hbase, hquote⟩ := (by simpa using hends : feed.base = asset ∧ feed.quote = next)
      rw [if_pos hbase, hquote]
    · obtain ⟨hquote, hbase⟩ := (by simpa using hends : feed.quote = asset ∧ feed.base = next)
      rw [if_neg (fun h => hne (h.symm.trans hbase)), if_pos hquote, hbase]

theorem DistinctIds.eq (hids : DistinctIds feeds) (hfeed : feed ∈ directFeeds feeds)
    (hfeed' : feed' ∈ directFeeds feeds) (h : feed.id = feed'.id) : feed = feed' :=
  List.inj_on_of_nodup_map hids hfeed hfeed' h

theorem labelsDiffer (hids : DistinctIds feeds) :
    SimpleRoutes.LabelsDiffer traverse (directFeeds feeds) := by
  intro asset
  have hpairwise : (directFeeds feeds).Pairwise fun feed feed' => feed.id ≠ feed'.id :=
    List.pairwise_map.mp hids
  refine hpairwise.imp fun hne next next' label h h' => hne ?_
  rw [← (traverse_eq_some h).1, ← (traverse_eq_some h').1]

end Spec

section Order

variable {feeds feeds' : List FeedDefinition} {a b c : Route} {base quote asset : Asset}
  {vertices vertices' : List Asset}

/-- The order as one of pairs, lexicographic in the length and the ids. -/
def key (route : Route) : ℕ ×ₗ List ℕ := toLex (route.length, feedIds route)

theorem precedes_iff : Precedes a b ↔ key a ≤ key b := by
  unfold Precedes key
  rw [Prod.Lex.toLex_le_toLex]

instance : Std.Total Precedes := ⟨fun a b => by
  rw [precedes_iff, precedes_iff]
  exact le_total _ _⟩

instance : IsTrans Route Precedes := ⟨fun a b c => by
  rw [precedes_iff, precedes_iff, precedes_iff]
  exact le_trans⟩

/-- From one asset, chained legs over the same feeds are the same legs. -/
theorem eq_of_feedIds_eq (hids : DistinctIds feeds)
    (ha : SimpleRoutes.Walks (SimpleRoutes.Steps traverse (directFeeds feeds)) asset a vertices)
    (hb : SimpleRoutes.Walks (SimpleRoutes.Steps traverse (directFeeds feeds)) asset b vertices')
    (h : feedIds a = feedIds b) : a = b := by
  induction ha generalizing b vertices' with
  | nil =>
    cases hb with
    | nil => rfl
    | cons => cases h
  | cons hstep _ ih =>
    cases hb with
    | nil => cases h
    | cons hstep' hrest' =>
      obtain ⟨feed, hfeed, hstep⟩ := hstep
      obtain ⟨feed', hfeed', hstep'⟩ := hstep'
      simp only [feedIds, List.map_cons, List.cons.injEq] at h
      have hid : feed.id = feed'.id := by
        rw [← (traverse_eq_some hstep).1, ← (traverse_eq_some hstep').1]
        exact UInt32.toNat_inj.mp h.1
      obtain rfl := hids.eq hfeed hfeed' hid
      cases hstep.symm.trans hstep'
      rw [ih hrest' h.2]

/-- Strictly: fewer legs, or as many and smaller feed ids. -/
def Before (a b : Route) : Prop :=
  a.length < b.length ∨ (a.length = b.length ∧ feedIds a < feedIds b)

theorem before_of_precedes (h : Precedes a b) (hne : feedIds a ≠ feedIds b) : Before a b := by
  rcases h with hlt | ⟨heq, hle⟩
  · exact .inl hlt
  · exact .inr ⟨heq, lt_of_le_of_ne hle hne⟩

/-- Registering the same feeds in another order gives the same Direct feeds. -/
theorem directFeeds_new (hids : DistinctIds feeds) (h : feeds.Perm feeds') :
    directFeeds (FeedRegistry.new feeds').feeds = directFeeds (FeedRegistry.new feeds).feeds := by
  have : Std.Total (fun a b : FeedDefinition => a.id ≤ b.id) := ⟨fun a b => UInt32.le_total a.id b.id⟩
  have : IsTrans FeedDefinition (fun a b => a.id ≤ b.id) := ⟨fun _ _ _ => UInt32.le_trans⟩
  have hsorted (feeds : List FeedDefinition) :
      (directFeeds (FeedRegistry.new feeds).feeds).Pairwise fun a b => a.id ≤ b.id :=
    (List.pairwise_insertionSort _ feeds).filter _
  have hperm (feeds : List FeedDefinition) :
      (directFeeds (FeedRegistry.new feeds).feeds).Perm (directFeeds feeds) :=
    (List.perm_insertionSort _ feeds).filter _
  have hsame := (hperm feeds').trans ((h.symm.filter _).trans (hperm feeds).symm)
  refine hsame.eq_of_pairwise (fun a b ha hb hle hge => ?_) (hsorted feeds') (hsorted feeds)
  exact hids.eq ((hperm feeds).mem_iff.mp (hsame.mem_iff.mp ha)) ((hperm feeds).mem_iff.mp hb)
    (UInt32.le_antisymm hle hge)

end Order

section Candidates

variable {feeds feeds' : List FeedDefinition} {pair : FeedDefinition}

theorem mem_new (feed : FeedDefinition) : feed ∈ (FeedRegistry.new feeds).feeds ↔ feed ∈ feeds :=
  (List.perm_insertionSort _ feeds).mem_iff

theorem leads_new : Leads (FeedRegistry.new feeds).feeds = Leads feeds := by
  funext asset leg next
  simp only [Leads, mem_new]

theorem distinctIds_new (hids : DistinctIds feeds) :
    DistinctIds (FeedRegistry.new feeds).feeds := by
  have hperm : (directFeeds (FeedRegistry.new feeds).feeds).Perm (directFeeds feeds) :=
    (List.perm_insertionSort _ feeds).filter _
  exact (hperm.map _).nodup_iff.mpr hids

/-- The search terminates and finds every route once. -/
theorem exists_found (hids : DistinctIds feeds) (base quote : Asset) :
    ∃ found : List Route,
      SimpleRoutes.extend traverse (directFeeds (FeedRegistry.new feeds).feeds) quote
          (Fintype.card Asset) base ⟨[base], [], []⟩ = some ⟨[base], [], found⟩ ∧
      (∀ route, route ∈ found ↔ IsRoute feeds base quote route) ∧ found.Nodup := by
  obtain ⟨found, search, hsearch, hextends, hfound, hnodup⟩ :=
    @SimpleRoutes.extend_spec _ _ _ traverse (directFeeds (FeedRegistry.new feeds).feeds) quote _ _
      (labelsDiffer (distinctIds_new hids)) (Fintype.card Asset) ⟨[base], [], []⟩
      (List.nodup_singleton base) (by simp) base
  refine ⟨found, ?_, fun route => ?_, hnodup⟩
  · rw [hsearch, hextends]
    simp
  · rw [hfound, SimpleRoutes.routeFrom_start_iff, IsRoute, ← leads_new]
    exact SimpleRoutes.isSimple_congr fun asset leg next hne => steps_iff hne

/-- What a pair of two assets can be priced over: every simple route between them, once, in order;
none exactly where the Direct feeds do not connect the two. The order in which the feeds were
registered does not matter. -/
theorem candidates_spec (feeds : List FeedDefinition) (pair : FeedDefinition)
    (hids : DistinctIds feeds) (hpair : pair.base ≠ pair.quote) :
    (((assetGraph feeds).Reachable pair.base pair.quote ∧
        ∃ routes, candidates (.new feeds) pair = some (.ok routes) ∧
          (∀ route, route ∈ routes ↔ IsRoute feeds pair.base pair.quote route) ∧
          routes.Nodup ∧ routes.Pairwise Before) ∨
      (¬(assetGraph feeds).Reachable pair.base pair.quote ∧
        candidates (.new feeds) pair = some (.error (.noRoute pair.id)))) ∧
    ∀ feeds', feeds.Perm feeds' → candidates (.new feeds') pair = candidates (.new feeds) pair := by
  obtain ⟨found, hsearch, hfound, hnodup⟩ := exists_found hids pair.base pair.quote
  have hconnected : (∃ route, route ∈ found) ↔
      (assetGraph feeds).Reachable pair.base pair.quote := by
    simp only [hfound]
    exact SimpleRoutes.exists_isSimple_iff fun a b => Iff.rfl
  have hcandidates : candidates (.new feeds) pair =
      if found.isEmpty then some (.error (.noRoute pair.id))
      else some (.ok (found.insertionSort Precedes)) := by
    simp only [candidates, if_neg hpair, hsearch, Option.bind_eq_bind, Option.bind_some]
  refine ⟨?_, fun feeds' h => ?_⟩
  · by_cases hempty : found = []
    · subst hempty
      refine .inr ⟨fun h => ?_, by rw [hcandidates]; rfl⟩
      obtain ⟨route, hroute⟩ := hconnected.mpr h
      cases hroute
    · have hperm := List.perm_insertionSort Precedes found
      refine .inl ⟨hconnected.mp (List.exists_mem_of_ne_nil _ hempty), _,
        by rw [hcandidates, if_neg (by simpa using hempty)],
        fun route => by rw [hperm.mem_iff, hfound], hperm.nodup_iff.mpr hnodup, ?_⟩
      have hsorted := List.pairwise_insertionSort Precedes found
      refine (hsorted.and (hperm.nodup_iff.mpr hnodup)).imp_of_mem ?_
      rintro a b ha hb ⟨hle, hne⟩
      refine before_of_precedes hle fun heq => hne ?_
      -- Two routes between the same assets over the same feeds are one.
      obtain ⟨_, hwalk, hsimple, -⟩ := (hfound a).mp (hperm.mem_iff.mp ha)
      obtain ⟨_, hwalk', hsimple', -⟩ := (hfound b).mp (hperm.mem_iff.mp hb)
      exact eq_of_feedIds_eq hids
        (hwalk.congr (fun _ _ _ hne => (steps_iff hne).mpr) hsimple)
        (hwalk'.congr (fun _ _ _ hne => (steps_iff hne).mpr) hsimple') heq
  · unfold candidates
    rw [directFeeds_new hids h]

end Candidates

section Instances

/-- The feeds of a node, and its LBTC/USDT pair. -/
theorem candidates_spec_supported :
    (((assetGraph supportedFeeds).Reachable .lbtc .usdt ∧
        ∃ routes, candidates (.new supportedFeeds) (.new 4 .lbtc .usdt .cross) = some (.ok routes) ∧
          (∀ route, route ∈ routes ↔ IsRoute supportedFeeds .lbtc .usdt route) ∧
          routes.Nodup ∧ routes.Pairwise Before) ∨
      (¬(assetGraph supportedFeeds).Reachable .lbtc .usdt ∧
        candidates (.new supportedFeeds) (.new 4 .lbtc .usdt .cross) = some (.error (.noRoute 4)))) ∧
    ∀ feeds', supportedFeeds.Perm feeds' →
      candidates (.new feeds') (.new 4 .lbtc .usdt .cross) =
        candidates (.new supportedFeeds) (.new 4 .lbtc .usdt .cross) :=
  candidates_spec supportedFeeds (.new 4 .lbtc .usdt .cross) (by unfold DistinctIds; decide) (by decide)

/-- Two feeds of one id between the same two assets: the routes over them come in the order in
which they were registered. -/
theorem candidates_depend_on_order :
    candidates (.new [.new 0 .lbtc .usd .direct, .new 0 .usd .lbtc .direct])
        (.new 1 .lbtc .usd .cross) ≠
      candidates (.new [.new 0 .usd .lbtc .direct, .new 0 .lbtc .usd .direct])
        (.new 1 .lbtc .usd .cross) := by
  decide +kernel

end Instances

end CrossRoute

end PriceOracle
