import BitCord.Removal

/-!
# Reordering channels

`channel_reorder` puts the given channels first and keeps the others behind them. It checks that
each given channel is one of the community, and not that each is given once (`reorders_iff`,
`reordered_twice`).
-/

namespace BitCord

open Lib AppState

/-- A call of `channel_reorder` that succeeds, on a community that lists each channel once. -/
structure ReorderCall (P : Prims) where
  before : AppState
  params : ReorderChannelsParams
  old : SignedManifest
  known : before.communities.lookup params.communityId = some old
  listedOnce : old.manifest.channelIds.Nodup
  ok : (before.channelReorder P params).2.isOk = true

namespace ReorderCall

variable {P : Prims} (x : ReorderCall P)

/-- The channels that are given, in the order in which they are given. -/
def supplied : List ChannelId := x.params.channelIds.filterMap fun id =>
  (parseUlid id).map ChannelId.mk

def after : AppState := (x.before.channelReorder P x.params).1

/-- The list is the old one with the given channels at the front. -/
structure Reorders (new : List ChannelId) : Prop where
  nodup : new.Nodup
  complete : ∀ c ∈ x.old.manifest.channelIds, c ∈ new
  order : new = x.supplied ++ x.old.manifest.channelIds.filter fun c => decide (c ∉ x.supplied)

theorem parseOrder_eq {ids : List String} {order : List ChannelId}
    (h : parseOrder ids = .ok order) :
    order = ids.filterMap fun id => (parseUlid id).map ChannelId.mk := by
  induction ids generalizing order with
  | nil =>
    cases h
    rfl
  | cons id ids ih =>
    simp only [parseOrder, List.mapM_cons] at h
    cases hid : parseUlid id with
    | none =>
      rw [hid] at h
      cases h
    | some ulid =>
      rw [hid] at h
      cases hrest : parseOrder ids with
      | error e =>
        unfold parseOrder at hrest
        rw [hrest] at h
        cases h
      | ok rest =>
        rw [List.filterMap_cons, hid, ← ih hrest]
        unfold parseOrder at hrest
        rw [hrest] at h
        cases h
        rfl

/-- The manifest after the call. -/
theorem lookup_after : ∃ new, x.after.communities.lookup x.params.communityId = some new ∧
    new.manifest.channelIds = x.supplied ++
      x.old.manifest.channelIds.filter fun c => !x.params.channelIds.contains c.text := by
  have hok := x.ok
  unfold after
  unfold channelReorder at hok ⊢
  split at hok
  · cases hok
  · cases hok
  · cases hok
  · next order old hrefusal horder hold =>
    cases x.known.symm.trans hold
    exact ⟨_, AList.lookup_insert _, by rw [parseOrder_eq horder]; rfl⟩

theorem mem_supplied {c : ChannelId} (h : c.text ∈ x.params.channelIds) : c ∈ x.supplied :=
  List.mem_filterMap.mpr ⟨c.text, h, by rw [ChannelId.text, parseUlid_ulidText]; rfl⟩

/-- The new list is the old one in the order asked for, if and only if no channel is given twice
and each listed channel that is given is given by the text of its id. -/
theorem reorders_iff :
    (∃ new, x.after.communities.lookup x.params.communityId = some new ∧
        x.Reorders new.manifest.channelIds) ↔
      x.supplied.Nodup ∧
        ∀ c ∈ x.old.manifest.channelIds, c ∈ x.supplied → c.text ∈ x.params.channelIds := by
  obtain ⟨new, hnew, hids⟩ := x.lookup_after
  constructor
  · rintro ⟨new', hnew', hreorders⟩
    cases hnew.symm.trans hnew'
    have hnodup := hreorders.nodup
    have horder := hreorders.order
    rw [hids] at hnodup horder
    refine ⟨hnodup.of_append_left, fun c hc hsupplied => ?_⟩
    by_contra hnot
    have hrest : c ∈ x.old.manifest.channelIds.filter fun c => decide (c ∉ x.supplied) := by
      rw [← List.append_cancel_left horder]
      exact List.mem_filter.mpr ⟨hc, by simpa using hnot⟩
    exact of_decide_eq_true (List.mem_filter.mp hrest).2 hsupplied
  · rintro ⟨hnodup, htexts⟩
    have hfilter : (x.old.manifest.channelIds.filter fun c =>
        !x.params.channelIds.contains c.text) =
          x.old.manifest.channelIds.filter fun c => decide (c ∉ x.supplied) := by
      refine List.filter_congr fun c hc => ?_
      have hiff : c.text ∈ x.params.channelIds ↔ c ∈ x.supplied :=
        ⟨x.mem_supplied, htexts c hc⟩
      by_cases h : c ∈ x.supplied <;> simp [h, hiff]
    rw [hfilter] at hids
    refine ⟨new, hnew, ?_, fun c hc => ?_, hids⟩
    · rw [hids, List.nodup_append]
      refine ⟨hnodup, x.listedOnce.filter _, fun c hc c' hc' heq => ?_⟩
      exact of_decide_eq_true (List.mem_filter.mp hc').2 (heq ▸ hc)
    · rw [hids, List.mem_append]
      by_cases h : c ∈ x.supplied
      · exact .inl h
      · exact .inr (List.mem_filter.mpr ⟨hc, decide_eq_true h⟩)

end ReorderCall

namespace Sample

/-- The one channel of the community is given twice. -/
def givenTwice : ReorderCall (prims [] []) where
  before := listingMember
  params := ⟨community.text, [channel.id.text, channel.id.text]⟩
  old := listing
  known := by decide +kernel
  listedOnce := by decide
  ok := by decide +kernel

def lastChannel : ChannelManifest := { channel with id := ⟨8⟩ }

def listingBoth : SignedManifest :=
  (CommunityManifest.mk community "" "" 31 0 [] [channel.id, lastChannel.id] [] 1 false).sign
    (prims [] []) 30

/-- The last of two channels is given. -/
def lastGiven : ReorderCall (prims [] []) where
  before := { withChannel (withChannel (app 20) channel 70) lastChannel 71 with
    communities := Dict.insertAll [(community.text, listingBoth)] ∅ }
  params := ⟨community.text, [lastChannel.id.text]⟩
  old := listingBoth
  known := by decide +kernel
  listedOnce := by decide
  ok := by decide +kernel

end Sample

open Sample in
theorem reordered_last : ∃ new, lastGiven.after.communities.lookup community.text = some new ∧
    lastGiven.Reorders new.manifest.channelIds :=
  lastGiven.reorders_iff.mpr ⟨by decide +kernel, by decide +kernel⟩

open Sample in
/-- A channel that is given twice is listed twice. -/
theorem reordered_twice : ∃ new,
    givenTwice.after.communities.lookup community.text = some new ∧
      new.manifest.channelIds = [channel.id, channel.id] ∧
        ¬ givenTwice.Reorders new.manifest.channelIds := by
  obtain ⟨new, hnew, hids⟩ := givenTwice.lookup_after
  have hlisted : new.manifest.channelIds = [channel.id, channel.id] :=
    hids.trans (by decide +kernel)
  refine ⟨new, hnew, hlisted, fun h => ?_⟩
  have hnodup := h.nodup
  rw [hlisted] at hnodup
  exact absurd hnodup (by decide)

end BitCord
