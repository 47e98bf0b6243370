import Mydon.Entities.Cards

/-! Calls of the registry, and what each leaves of the cards and of the points. -/

namespace Mydon.Entities

open Mydon.Lib Mydon.Js

inductive CardCall
  | create (dto : CreateEntityDto) (actorRef : String)
  | update (id : ℕ) (dto : UpdateEntityDto) (today : ℤ)
  | propose (p : Proposal)
  | approve (id : ℕ) (withDrafts : Bool)
  | approveField (id : ℕ) (field : String)
  | rejectField (id : ℕ) (field : String)
  | decide (id : ℕ) (decision : Decision)

/-- A call that is refused changes nothing. -/
def committed {α : Type} (db : Db) (result : Except HttpError (α × Db)) : Db :=
  match result with
  | .ok (_, db) => db
  | .error _ => db

def serve (env : Env) (db : Db) : CardCall → Db
  | .create dto actorRef => committed db (create env db dto actorRef)
  | .update id dto today => committed db (update env today db id dto)
  | .propose p => (propose env.host db p).toOption.getD db
  | .approve id withDrafts => committed db (approve env.host db id withDrafts)
  | .approveField id field => committed db (approveField db id field)
  | .rejectField id field => rejectField db id field
  | .decide id decision => committed db (decideApproval db id decision)

/-- What a call may do. -/
inductive Change (env : Env) (db : Db) : CardCall → Db → Prop
  | quiet {call : CardCall} {db' : Db} (hcards : db'.cards = db.cards) (hpoints : db'.points = db.points)
    (haliases : db'.aliases = db.aliases) (hnext : db.nextId ≤ db'.nextId) : Change env db call db'
  | created {dto : CreateEntityDto} {actorRef : String} {c : Card} {db' : Db}
    (haccepted : create env db dto actorRef = .ok (c, db')) (hid : c.id = db.nextId) (htype : c.type = dto.type)
    (hname : c.name = dto.name) (hattrs : c.attrs = dto.attrs.getD []) (hcards : db'.cards = db.cards ++ [c])
    (hpoints : syncGeoPoint env.host db.points c.id c.attrs true = .ok db'.points)
    (haliases : db'.aliases = db.aliases) (hnext : db.nextId < db'.nextId) : Change env db (.create dto actorRef) db'
  | updated {id : ℕ} {dto : UpdateEntityDto} {today : ℤ} {before updated : Card} {db' : Db}
    (h : Updated env today db id dto before updated db') : Change env db (.update id dto today) db'
  | approved {id : ℕ} {withDrafts : Bool} {card : Card} {db' : Db} (hcard : db.card id = some card)
    (h : Approved env.host db card (if withDrafts then some (db.draftsOf id) else none) db') :
    Change env db (.approve id withDrafts) db'
  | patched {id : ℕ} {field : String} {card : Card} {d : Draft} (hdraft : db.draft id field = some d)
    (hcard : db.card id = some card) : Change env db (.approveField id field) (approveFieldTx db card d)
  | decided {id : ℕ} {row : Approval} {card : Card} {db' : Db}
    (hrow : Table.lookup Approval.id db.approvals id = some row) (hasked : row.entityApprove = some card.id)
    (hpending : row.decision = .pending) (hcard : db.card card.id = some card) (hopen : card.approved = false)
    (hcards : db'.cards = Table.update Card.id db.cards card.id fun c =>
      c.overwrite (applyDrafts card.name card.attrs (db.draftsOf card.id)))
    (hpoints : db'.points = db.points) (haliases : db'.aliases = db.aliases) (hnext : db'.nextId = db.nextId) :
    Change env db (.decide id .approved) db'

variable {env : Env} {db db' : Db} {call : CardCall} {id : ℕ}

theorem Change.unchanged : Change env db call db := .quiet rfl rfl rfl le_rfl

theorem committed_change {α : Type} {result : Except HttpError (α × Db)}
    (h : ∀ a db', result = .ok (a, db') → Change env db call db') : Change env db call (committed db result) := by
  unfold committed
  split
  · exact h _ _ rfl
  · exact .unchanged

theorem create_change {dto : CreateEntityDto} {actorRef : String} {c : Card}
    (h : create env db dto actorRef = .ok (c, db')) : Change env db (.create dto actorRef) db' := by
  have haccepted := h
  obtain ⟨-, -, h⟩ := bind_eq_ok.mp h
  obtain ⟨-, -, h⟩ := bind_eq_ok.mp h
  obtain ⟨points, hpoints, h⟩ := bind_eq_ok.mp h
  obtain ⟨rfl, rfl⟩ := Prod.ext_iff.mp (Except.ok.inj h)
  exact .created haccepted rfl rfl rfl rfl rfl hpoints rfl (Nat.lt_add_of_pos_right Nat.two_pos)

theorem propose_change {p : Proposal} (h : propose env.host db p = .ok db') : Change env db (.propose p) db' := by
  obtain ⟨card, -, h⟩ := bind_eq_ok.mp h
  obtain rfl := Except.ok.inj h
  split_ifs
  · exact .unchanged
  · unfold proposeTx
    split
    · exact .quiet rfl rfl rfl le_rfl
    · exact .quiet rfl rfl rfl (Nat.le_succ _)

theorem decide_change {decision : Decision} {row : Approval} (h : decideApproval db id decision = .ok (row, db')) :
    Change env db (.decide id decision) db' := by
  obtain ⟨row, hrow, h⟩ := bind_eq_ok.mp h
  obtain ⟨_, hpending, h⟩ := bind_eq_ok.mp h
  obtain ⟨-, rfl⟩ := Prod.ext_iff.mp (Except.ok.inj h)
  split_ifs with hdecision
  · subst hdecision
    unfold executeEntityApprove
    rcases hcard : ({ row with decision := .approved } : Approval).entityApprove.bind _ with _ | card
    · exact .quiet rfl rfl rfl le_rfl
    · obtain ⟨cardId, hasked, hcard⟩ := Option.bind_eq_some_iff.mp hcard
      obtain rfl : card.id = cardId := card_id hcard
      dsimp only
      split_ifs with happroved
      · exact .quiet rfl rfl rfl le_rfl
      · exact .decided (orThrow_eq_ok.mp hrow) hasked (require_eq_ok.mp hpending) hcard (by simpa using happroved)
          rfl rfl rfl rfl
  · exact .quiet rfl rfl rfl le_rfl

/-- Every call is one of the changes. -/
theorem serve_change : Change env db call (serve env db call) := by
  cases call with
  | create dto actorRef => exact committed_change fun c db' h => create_change h
  | update id dto today =>
    refine committed_change fun c db' h => ?_
    obtain ⟨before, h⟩ := update_eq_ok h
    exact .updated h
  | propose p =>
    unfold serve
    dsimp only
    rcases h : propose env.host db p with e | db'
    · exact .unchanged
    · exact propose_change h
  | approve id withDrafts =>
    refine committed_change fun c db' h => ?_
    obtain ⟨card, hcard, h⟩ := bind_eq_ok.mp h
    obtain ⟨db₁, htx, h⟩ := bind_eq_ok.mp h
    obtain ⟨-, rfl⟩ := Prod.ext_iff.mp (Except.ok.inj h)
    exact .approved (orThrow_eq_ok.mp hcard) (approved_of_tx htx)
  | approveField id field =>
    refine committed_change fun c db' h => ?_
    obtain ⟨d, hd, h⟩ := bind_eq_ok.mp h
    obtain ⟨card, hcard, h⟩ := bind_eq_ok.mp h
    obtain ⟨-, rfl⟩ := Prod.ext_iff.mp (Except.ok.inj h)
    exact .patched (orThrow_eq_ok.mp hd) (orThrow_eq_ok.mp hcard)
  | rejectField id field =>
    unfold serve rejectField
    dsimp only
    split
    · exact .quiet rfl rfl rfl le_rfl
    · exact .unchanged
  | decide id decision => exact committed_change fun row db' h => decide_change h

/-! The cards after a change. -/

theorem card_of_update {g : Card → Card} {i k : ℕ} (hcards : db'.cards = Table.update Card.id db.cards i g)
    (hg : ∀ c, (g c).id = c.id) : db'.card k = if k = i then (db.card k).map g else db.card k := by
  unfold Db.card
  rw [hcards, Table.lookup_update hg]

theorem card_of_updated {today : ℤ} {dto : UpdateEntityDto} {before updated : Card} {k : ℕ}
    (h : Updated env today db id dto before updated db') : db'.card k = if k = id then some updated else db.card k := by
  have hid : updated.id = id := by rw [h.eq, edited_id, card_id h.found]
  unfold Db.card
  rw [h.cards]
  split_ifs with hk
  · rw [hk, ← hid]
    exact Table.lookup_write_self (hid ▸ h.found)
  · exact Table.lookup_write_of_ne (hid ▸ hk)

/-- Every card was numbered before. -/
def Db.Numbered (db : Db) : Prop := ∀ c ∈ db.cards, c.id < db.nextId

theorem Change.numbered (h : Change env db call db') (hdb : db.Numbered) : db'.Numbered := by
  have hupdate {g : Card → Card} {i : ℕ} (hcards : db'.cards = Table.update Card.id db.cards i g)
      (hg : ∀ c, (g c).id = c.id) (hnext : db'.nextId = db.nextId) : db'.Numbered := by
    intro c hc
    have hids : db'.cards.map Card.id = db.cards.map Card.id := by rw [hcards, Table.map_update Card.id hg]
    obtain ⟨c₀, hc₀, hid⟩ := List.mem_map.mp (hids ▸ List.mem_map_of_mem hc)
    rw [hnext, ← hid]
    exact hdb c₀ hc₀
  cases h with
  | quiet hcards _ _ hnext =>
    intro c hc
    rw [hcards] at hc
    exact (hdb c hc).trans_le hnext
  | created _ hid _ _ _ hcards _ _ hnext =>
    intro c hc
    rw [hcards] at hc
    rcases List.mem_append.mp hc with hold | hnew
    · exact (hdb c hold).trans hnext
    · rw [List.mem_singleton.mp hnew, hid]
      exact hnext
  | updated h =>
    intro c hc
    have hids : db'.cards.map Card.id = db.cards.map Card.id := by rw [h.cards, Table.map_key_write]
    obtain ⟨c₀, hc₀, hid⟩ := List.mem_map.mp (hids ▸ List.mem_map_of_mem hc)
    rw [h.nextId, ← hid]
    exact hdb c₀ hc₀
  | approved hcard h => exact hupdate h.cards (fun c => rfl) h.nextId
  | @patched _ _ card d _ _ => exact hupdate rfl (fun c => patch_id c card d) rfl
  | decided _ _ _ _ _ hcards _ _ hnext => exact hupdate hcards (fun c => rfl) hnext

theorem card_of_created {c : Card} {k : ℕ} (hcards : db'.cards = db.cards ++ [c]) (hid : c.id = db.nextId)
    (hdb : db.Numbered) : db'.card k = if k = c.id then some c else db.card k := by
  unfold Db.card
  rw [hcards, Table.lookup_append]
  split_ifs with hk
  · have hnone : Table.lookup Card.id db.cards k = none :=
      Table.lookup_eq_none_iff.mpr fun c' hc' => by rw [hk, hid]; exact (hdb c' hc').ne
    rw [hnone, hk]
    simp [Table.lookup]
  · have hnone : Table.lookup Card.id [c] k = none := Table.lookup_eq_none_iff.mpr (by simpa using Ne.symm hk)
    rw [hnone, Option.or_none]

end Mydon.Entities
