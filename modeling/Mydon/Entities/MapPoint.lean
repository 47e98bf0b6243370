import Mydon.Entities.Calls
import Mydon.Entities.Interleaving

/-! The point of a card on the map is what its attributes say. Edits and the approval of a card bring the point along;
the approval of one value and the one decided in the queue do not. -/

namespace Mydon.Entities

open Mydon.Lib Mydon.Js

/-- The point is the one of the attributes, as its columns hold it; a broken pair says nothing of it. -/
def PointAgrees (host : Host) (db : Db) (c : Card) : Prop :=
  match Geo.coordFromAttrs host c.attrs with
  | .absent => db.point c.id = none
  | .broken => True
  | .point coord =>
    ∃ p, db.point c.id = some p ∧ Stock.numeric 9 6 coord.lat = .ok p.lat ∧ Stock.numeric 9 6 coord.lng = .ok p.lng ∧
      p.address = Geo.addressFromAttrs c.attrs

def broken (host : Host) (c : Card) : Prop := Geo.coordFromAttrs host c.attrs = .broken

/-- The approvals of proposed values. -/
def CardCall.approves : CardCall → Bool
  | .approve .. | .approveField .. | .decide .. => true
  | _ => false

/-- Every point agrees with its card; only an approval has broken a pair. -/
def MapLaw (host : Host) (steps : List (Step Db CardCall)) (db : Db) : Prop :=
  ∀ id c, db.card id = some c → PointAgrees host db c ∧
    (broken host c → ∃ e ∈ steps, e.action.approves = true ∧
      ∃ before after, e.before.card id = some before ∧ e.after.card id = some after ∧ ¬ broken host before ∧
        broken host after)

/-- What a call writes to the attributes of a card without a look at its point. -/
def unsynced (db : Db) : CardCall → Option (ℕ × Attrs)
  | .approveField id field =>
    (db.draft id field).bind fun d => (db.card id).map fun card => (card.id, (card.patch card d).attrs)
  | .decide id .approved =>
    (Table.lookup Approval.id db.approvals id).bind fun row =>
      (row.entityApprove.bind db.card).bind fun card =>
        if row.decision = .pending ∧ card.approved = false then
          some (card.id, (applyDrafts card.name card.attrs (db.draftsOf card.id)).2)
        else none
  | _ => none

/-- The point that `syncGeoPoint` would leave of the card. -/
def synced (host : Host) (db : Db) (id : ℕ) (attrs : Attrs) : Option GeoPoint :=
  (syncGeoPoint host db.points id attrs false).toOption.bind fun points => Table.lookup GeoPoint.entityId points id

/-- Where a call does not look at the point, there would be nothing to change. -/
def NothingToSync (host : Host) (e : Step Db CardCall) : Prop :=
  ∀ id attrs, unsynced e.before e.action = some (id, attrs) → synced host e.before id attrs = e.before.point id

instance (host : Host) (e : Step Db CardCall) : Decidable (NothingToSync host e) :=
  decidable_of_iff (∀ u ∈ unsynced e.before e.action, synced host e.before u.1 u.2 = e.before.point u.1)
    ⟨fun h id attrs hu => h (id, attrs) hu, fun h u hu => h u.1 u.2 hu⟩

variable {host : Host} {env : Env} {db db' : Db} {call : CardCall} {id k : ℕ} {attrs : Attrs} {strict : Bool}
  {points points' : List GeoPoint} {c : Card} {steps : List (Step Db CardCall)}

theorem syncGeoPoint_other (h : syncGeoPoint host points id attrs strict = .ok points') (hk : k ≠ id) :
    Table.lookup GeoPoint.entityId points' k = Table.lookup GeoPoint.entityId points k := by
  unfold syncGeoPoint at h
  split at h
  · split_ifs at h
    obtain rfl := Except.ok.inj h
    rfl
  · obtain rfl := Except.ok.inj h
    rw [Table.lookup_filter_ne, if_neg hk]
  · obtain ⟨lat, -, h⟩ := bind_eq_ok.mp h
    obtain ⟨lng, -, h⟩ := bind_eq_ok.mp h
    obtain rfl := Except.ok.inj h
    rw [Table.lookup_upsert, if_neg hk]

/-- A synced point agrees. -/
theorem agrees_of_sync (h : syncGeoPoint host points c.id c.attrs strict = .ok db.points) : PointAgrees host db c := by
  unfold syncGeoPoint at h
  unfold PointAgrees Db.point
  split at h
  · next hdeclared =>
    rw [hdeclared]
    trivial
  · next hdeclared =>
    rw [hdeclared, ← Except.ok.inj h]
    rw [Table.lookup_filter_ne, if_pos rfl]
  · next coord hdeclared =>
    obtain ⟨lat, hlat, h⟩ := bind_eq_ok.mp h
    obtain ⟨lng, hlng, h⟩ := bind_eq_ok.mp h
    rw [hdeclared, ← Except.ok.inj h]
    rw [Table.lookup_upsert, if_pos rfl]
    exact ⟨_, rfl, hlat, hlng, rfl⟩

/-- An edit does not leave a broken pair. -/
theorem not_broken_of_sync (h : syncGeoPoint host points c.id c.attrs true = .ok points') : ¬ broken host c := by
  intro hbroken
  unfold syncGeoPoint at h
  rw [hbroken] at h
  cases h

/-- Where syncing would change nothing, the point agrees as it is. -/
theorem agrees_iff_synced : PointAgrees host db c ↔
    broken host c ∨ synced host db c.id c.attrs = db.point c.id := by
  obtain ⟨points, hsync⟩ := @syncGeoPoint_lax host db.points c.attrs c.id
  have hsynced : synced host db c.id c.attrs = Table.lookup GeoPoint.entityId points c.id := by
    unfold synced
    rw [hsync]
    rfl
  have hagrees : PointAgrees host { db with points } c := agrees_of_sync hsync
  rw [hsynced]
  unfold PointAgrees broken Db.point at *
  rcases hdeclared : Geo.coordFromAttrs host c.attrs with _ | _ | coord <;> rw [hdeclared] at hagrees <;>
    dsimp only at hagrees ⊢
  · rw [hagrees]
    exact ⟨fun h => .inr h.symm, fun h => (h.resolve_left nofun).symm⟩
  · exact ⟨fun _ => .inl rfl, fun _ => trivial⟩
  · obtain ⟨p, hp, hlat, hlng, haddress⟩ := hagrees
    rw [hp]
    refine ⟨?_, fun h => ⟨p, (h.resolve_left nofun).symm, hlat, hlng, haddress⟩⟩
    rintro ⟨q, hq, hlat', hlng', haddress'⟩
    have hid := Table.key_of_lookup hp
    have hid' := Table.key_of_lookup hq
    right
    rw [hq, Option.some.injEq]
    obtain ⟨e, lat, lng, address⟩ := p
    obtain ⟨e', lat', lng', address'⟩ := q
    simp only at *
    rw [hid, hid', haddress, haddress', Except.ok.inj (hlat.symm.trans hlat'), Except.ok.inj (hlng.symm.trans hlng')]

theorem PointAgrees.congr {c' : Card} (h : PointAgrees host db c) (hpoint : db'.point c'.id = db.point c.id)
    (hattrs : c'.attrs = c.attrs) : PointAgrees host db' c' := by
  unfold PointAgrees at *
  rw [hattrs, hpoint]
  exact h

/-- A card and a point that a call leaves alone agree as before. -/
theorem agrees_other (hall : ∀ k c, db.card k = some c → PointAgrees host db c) (hcard : db'.card k = db.card k)
    (hpoint : db'.point k = db.point k) (hc : db'.card k = some c) : PointAgrees host db' c := by
  rw [hcard] at hc
  exact (hall k c hc).congr (by rw [card_id hc, hpoint]) rfl

theorem agrees_of_synced (hpoints : db'.points = db.points) (h : synced host db c.id c.attrs = db.point c.id) :
    PointAgrees host db' c := by
  refine agrees_iff_synced.mpr (.inr ?_)
  unfold synced Db.point at *
  rwa [hpoints]

theorem Change.agrees (h : Change env db call db') (hdb : db.Numbered)
    (hsync : ∀ id attrs, unsynced db call = some (id, attrs) → synced env.host db id attrs = db.point id)
    (hall : ∀ k c, db.card k = some c → PointAgrees env.host db c) :
    ∀ k c, db'.card k = some c → PointAgrees env.host db' c := by
  intro k c hc
  cases h with
  | quiet hcards hpoints =>
    refine agrees_other hall ?_ ?_ hc
    · unfold Db.card
      rw [hcards]
    · unfold Db.point
      rw [hpoints]
  | created _ hid _ _ _ hcards hpoints =>
    have hcard := @card_of_created db db' _ k hcards hid hdb
    split_ifs at hcard with hk
    · obtain rfl := Option.some.inj (hcard.symm.trans hc)
      exact agrees_of_sync hpoints
    · exact agrees_other hall hcard (syncGeoPoint_other hpoints hk) hc
  | @updated id dto today before updated _ h =>
    have hcard := @card_of_updated env db db' id today dto before updated k h
    have hid : updated.id = id := by rw [h.eq, edited_id, card_id h.found]
    have hpoints := h.points
    split_ifs at hcard hpoints with hk hattrs
    · obtain rfl := Option.some.inj (hcard.symm.trans hc)
      exact agrees_of_sync (hid ▸ hpoints)
    · obtain rfl := Option.some.inj (hcard.symm.trans hc)
      refine (hall id before h.found).congr ?_ ?_
      · unfold Db.point
        rw [← Except.ok.inj hpoints, hid, card_id h.found]
      · have hnone : dto.attrs = none := by simpa using hattrs
        rw [h.eq]
        simp [edited, hnone]
    · exact agrees_other hall hcard (syncGeoPoint_other hpoints hk) hc
    · refine agrees_other hall hcard ?_ hc
      unfold Db.point
      rw [← Except.ok.inj hpoints]
  | @approved id withDrafts card _ hcard h =>
    generalize (if withDrafts then some (db.draftsOf id) else none) = drafts at h
    have hafter := @card_of_update db db' _ card.id k h.cards fun c => rfl
    split_ifs at hafter with hk
    · rw [hk, card_id hcard, hcard, Option.map_some] at hafter
      rw [hk, card_id hcard] at hc
      obtain rfl := Option.some.inj (hafter.symm.trans hc)
      exact agrees_of_sync h.points
    · exact agrees_other hall hafter (syncGeoPoint_other h.points hk) hc
  | @patched id field card d hdraft hcard =>
    have hafter := @card_of_update db (approveFieldTx db card d) _ card.id k rfl fun c => patch_id c card d
    split_ifs at hafter with hk
    · rw [hk, card_id hcard, hcard, Option.map_some] at hafter
      rw [hk, card_id hcard] at hc
      obtain rfl := Option.some.inj (hafter.symm.trans hc)
      refine @agrees_of_synced env.host db _ _ rfl ?_
      rw [patch_id]
      refine hsync _ _ ?_
      simp [unsynced, hdraft, hcard]
    · exact agrees_other hall hafter rfl hc
  | @decided id row card _ hrow hasked hpending hcard hopen hcards hpoints =>
    have hafter := @card_of_update db db' _ card.id k hcards fun c => rfl
    split_ifs at hafter with hk
    · rw [hk, hcard, Option.map_some] at hafter
      rw [hk] at hc
      obtain rfl := Option.some.inj (hafter.symm.trans hc)
      refine agrees_of_synced hpoints (hsync _ _ ?_)
      simp [unsynced, hrow, hasked, hcard, hpending, hopen, Card.overwrite]
    · refine agrees_other hall hafter ?_ hc
      unfold Db.point
      rw [hpoints]

/-- Only an approval breaks a pair. -/
theorem Change.broke (h : Change env db call db') (hdb : db.Numbered) (hc : db'.card k = some c)
    (hbroken : broken env.host c) :
    ∃ before, db.card k = some before ∧ (broken env.host before ∨ call.approves = true) := by
  have hold {g : Card → Card} {i : ℕ} (hcards : db'.cards = Table.update Card.id db.cards i g)
      (hg : ∀ c, (g c).id = c.id) : ∃ before, db.card k = some before := by
    have hafter := @card_of_update db db' _ i k hcards hg
    rw [hc] at hafter
    split_ifs at hafter
    · obtain ⟨before, hbefore, -⟩ := Option.map_eq_some_iff.mp hafter.symm
      exact ⟨before, hbefore⟩
    · exact ⟨c, hafter.symm⟩
  cases h with
  | quiet hcards =>
    unfold Db.card at hc
    rw [hcards] at hc
    exact ⟨c, hc, .inl hbroken⟩
  | created _ hid _ _ _ hcards hpoints =>
    have hcard := @card_of_created db db' _ k hcards hid hdb
    split_ifs at hcard with hk
    · obtain rfl := Option.some.inj (hcard.symm.trans hc)
      exact absurd hbroken (not_broken_of_sync hpoints)
    · exact ⟨c, hcard ▸ hc, .inl hbroken⟩
  | @updated id dto today before updated _ h =>
    have hcard := @card_of_updated env db db' id today dto before updated k h
    have hid : updated.id = id := by rw [h.eq, edited_id, card_id h.found]
    have hpoints := h.points
    split_ifs at hcard hpoints with hk hattrs
    · obtain rfl := Option.some.inj (hcard.symm.trans hc)
      exact absurd hbroken (not_broken_of_sync (hid ▸ hpoints))
    · obtain rfl := Option.some.inj (hcard.symm.trans hc)
      have hnone : dto.attrs = none := by simpa using hattrs
      refine ⟨before, hk ▸ h.found, .inl ?_⟩
      rw [h.eq] at hbroken
      simpa [broken, edited, hnone] using hbroken
    · exact ⟨c, hcard ▸ hc, .inl hbroken⟩
    · exact ⟨c, hcard ▸ hc, .inl hbroken⟩
  | approved _ h => exact (hold h.cards fun c => rfl).imp fun before hbefore => ⟨hbefore, .inr rfl⟩
  | @patched _ _ card d _ _ =>
    exact (hold rfl fun c => patch_id c card d).imp fun before hbefore => ⟨hbefore, .inr rfl⟩
  | decided _ _ _ _ _ hcards =>
    exact (hold hcards fun c => rfl).imp fun before hbefore => ⟨hbefore, .inr rfl⟩

/-! Runs. -/

/-- No card of the start has a broken pair, and every point agrees. -/
def Db.MapSound (host : Host) (db : Db) : Prop := ∀ id c, db.card id = some c → PointAgrees host db c ∧ ¬ broken host c

theorem run_numbered {db db' : Db} (hrun : Run (fun db call db' => db' = serve env db call) db steps db')
    (hdb : db.Numbered) : db'.Numbered :=
  @Run.invariant _ _ _ db db' steps Db.Numbered
    (fun s a s' hs hnext => by
      subst hnext
      exact serve_change.numbered hs) hrun hdb

/-- The map agrees with the cards in a run of calls that leave nothing to sync. -/
theorem mapLaw_of_run {db db' : Db} (hrun : Run (fun db call db' => db' = serve env db call) db steps db')
    (hdb : db.Numbered) (hsound : db.MapSound env.host) (hsync : ∀ e ∈ steps, NothingToSync env.host e) :
    MapLaw env.host steps db' := by
  induction hrun with
  | start => exact fun id c hc => ⟨(hsound id c hc).1, fun hbroken => absurd hbroken (hsound id c hc).2⟩
  | @step steps s' s'' a hrun hnext ih =>
    simp only [List.forall_mem_append, List.forall_mem_singleton] at hsync
    have hlaw := ih hsync.1
    obtain rfl : s'' = serve env s' a := hnext
    have hchange : Change env s' a (serve env s' a) := serve_change
    have hnumbered := run_numbered hrun hdb
    refine fun id c hc => ⟨hchange.agrees hnumbered hsync.2 (fun k c hc => (hlaw k c hc).1) id c hc, fun hbroken => ?_⟩
    obtain ⟨before, hbefore, hbroke⟩ := hchange.broke hnumbered hc hbroken
    by_cases hwas : broken env.host before
    · obtain ⟨e, he, hlaw⟩ := (hlaw id before hbefore).2 hwas
      exact ⟨e, List.mem_append_left _ he, hlaw⟩
    · exact ⟨_, List.mem_append_right _ (List.mem_singleton_self _), hbroke.resolve_left hwas, before, c, hbefore, hc,
        hwas, hbroken⟩

/-! A machine that is moved by proposals. -/

def mapHost : Host :=
  { cardHost with
    number := fun s => if s = "42" then some 42 else none
    numberText := fun n => if n = 41 then "41" else "69" }

def mapEnv : Env := ⟨mapHost, fun _ => ""⟩

def noCards : Db := ⟨[], [], [], [], [], 0⟩

/-- A machine on the map, and a new latitude for it. -/
def movedMachine : List CardCall :=
  [.create ⟨"machine", "Автомат", none, some [("широта", .num 41), ("долгота", .num 69)], none⟩ "owner",
    .propose ⟨0, "широта", "42"⟩]

theorem mapSound_noCards (host : Host) : noCards.MapSound host := fun _ _ h => nomatch h

theorem mapLaw_approved :
    MapLaw mapEnv.host
      (runActions (serve mapEnv) noCards
        (movedMachine ++ [.approve 0 true, .propose ⟨0, "модель", "KM-5"⟩, .approveField 0 "модель"])).1
      (runActions (serve mapEnv) noCards
        (movedMachine ++ [.approve 0 true, .propose ⟨0, "модель", "KM-5"⟩, .approveField 0 "модель"])).2 := by
  exact mapLaw_of_run (run_runActions (serve mapEnv) noCards _) (List.forall_mem_nil _) (mapSound_noCards mapHost)
    (by decide +kernel)

/-- The latitude is approved by itself, and the point stays where it was. -/
theorem point_left_behind : ¬ ∀ (env : Env) (steps : List (Step Db CardCall)) (db' : Db),
    Run (fun db call db' => db' = serve env db call) noCards steps db' → MapLaw env.host steps db' := by
  intro h
  let moved := runActions (serve mapEnv) noCards (movedMachine ++ [.approveField 0 "широта"])
  have hread : (moved.2.card 0).map (fun c => Geo.coordFromAttrs mapHost c.attrs) = some (.point ⟨42, 69⟩) := by
    decide +kernel
  obtain ⟨c, hc, hdeclared⟩ := Option.map_eq_some_iff.mp hread
  have hlaw := (h mapEnv _ _ (run_runActions (serve mapEnv) noCards _) 0 c hc).1
  simp only [PointAgrees, mapEnv, hdeclared] at hlaw
  obtain ⟨p, hp, hlat, -⟩ := hlaw
  rw [card_id hc] at hp
  have hpoint : moved.2.point 0 = some ⟨0, 41, 69, none⟩ := by decide +kernel
  obtain rfl := Option.some.inj (hp.symm.trans hpoint)
  have hmoved : (Stock.numeric 9 6 42).toOption = some 42 := by decide +kernel
  rw [hlat] at hmoved
  exact absurd hmoved (by decide)

end Mydon.Entities
