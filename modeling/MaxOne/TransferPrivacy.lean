import MaxOne.Library.TwoRuns
import MaxOne.MoneyRuns

/-!
# What a sender learns of the receiver

Two databases differ only in the balance of wallet `R` and in its ledger rows,
and one schedule of transfers to `R` runs on both, with the same draws, rates
and failures: its transfers may overlap in any way the locks allow. `SameDb`
and `SamePc` say what such runs keep in common. A transfer reads the receiver's
row under its lock, so the balance is in its block; it leaves it by a check
against the INTEGER column, by the receiver's own row, and by the update sent to
the receiver's own room. `overruns` is that check about to fail, the one way a
sender could learn of the balance, and the schedules here never come to it.
-/
namespace MaxOne.TransferPrivacy
open Library Library.Runs Library.LockedBlocks Library.DecimalRounding MaxOne.Rates MaxOne.Schema
  MaxOne.WalletsService MaxOne.WalletsMachine MaxOne.MoneyRuns

/-! ## What a user observes -/

/-- The user whose room an event is sent to. -/
def room : SocketEvent → Uuid
  | .balanceUpdated payload => payload.userId
  | .notification userId _ => userId

/-- The events that reached the room of one user. -/
def heardBy (user : Uuid) (events : List SocketEvent) : List SocketEvent :=
  events.filter fun e => room e = user

/-- What a call has returned or thrown, once it has. -/
def answer : Pc → Option (Except HttpException Response)
  | .done response => some (.ok response)
  | .failed e => some (.error e)
  | .emitFailed _ => some (.error internalError)
  | _ => none

/-! ## Databases that differ in one balance -/

/-- A wallet without its balance. -/
def bare (w : Wallet) : Wallet := { w with balance := .zero }

/-- The tables agree but for the balance of wallet `R` and its ledger rows. -/
structure SameDb (R : Uuid) (d d' : Db) : Prop where
  wallets : ∀ id, id ≠ R → d.wallets.find id = d'.wallets.find id
  receiver : (d.wallets.find R).map bare = (d'.wallets.find R).map bare
  ledger : ∀ t, t.walletId ≠ R → (t ∈ d.transactions.rows ↔ t ∈ d'.transactions.rows)
  auditLogs : d.auditLogs = d'.auditLogs
  outboxEvents : d.outboxEvents = d'.outboxEvents

/-- `id` is the id of a ledger row of wallet `R`. -/
def LedgerId (R : Uuid) (d : Db) (id : Uuid) : Prop :=
  ∃ t ∈ d.transactions.rows, t.walletId = R ∧ t.id = id

/-! ## Schedules -/

abbrev Schedule := List (ℕ × Act Input)

/-- A call of the schedule is a transfer to `R`. -/
def ToReceiver (R : Uuid) : ℕ × Act Input → Prop
  | (_, .step (.call (.transfer _ _ dto) _)) => dto.toWalletId = R
  | (_, .step (.call _ _)) => False
  | _ => True

/-- The ids drawn for the two ledger rows of a call. -/
def rowIds : ℕ × Act Input → List Uuid
  | (_, .step (.call _ draw)) => [draw.rowId, draw.inRowId]
  | _ => []

/-- The transfer has locked both wallets, its sender can pay, and the credit
takes the balance of `R` out of the INTEGER column. -/
def overruns (R : Uuid) (l : ℕ × Act Input) (t : Machine) : Bool :=
  match t.client l.1 with
  | .inside (.transaction (.transfer a) _) _ _ =>
      match t.data.db.wallets.find a.fromWalletId, t.data.db.wallets.find R, a.credit with
      | some source, some dest, some credit =>
          t.locks (.wallet a.fromWalletId) = some l.1 && t.locks (.wallet R) = some l.1 &&
            a.dto.amount ≤ source.balance.val && (Int4.ofInt? (dest.balance.val + credit)).isNone
      | _, _, _ => false
  | _ => false

/-- No transfer of the schedule makes the balance of `R` leave the column. -/
def staysInRange (R : Uuid) (ls : Schedule) (s : Shared) : Bool :=
  passes next (fun l t => !overruns R l t) ls (start s)

/-! ## Tables -/

section SameDb
variable {R : Uuid} {d d' : Db}

/-- The two wallets found under one id. -/
structure SameWallet (R id : Uuid) (w w' : Wallet) : Prop where
  id_eq : w.id = id
  bare_eq : bare w = bare w'
  other : id ≠ R → w = w'

theorem SameWallet.columns {id : Uuid} {w w' : Wallet} (h : SameWallet R id w w') :
    w.id = w'.id ∧ w.userId = w'.userId ∧ w.currency = w'.currency := by
  have hbare := h.bare_eq
  rw [bare, bare, Wallet.mk.injEq] at hbare
  exact ⟨hbare.1, hbare.2.1, hbare.2.2.2.1⟩

theorem SameDb.find (h : SameDb R d d') (id : Uuid) :
    Option.Rel (SameWallet R id) (d.wallets.find id) (d'.wallets.find id) := by
  by_cases hid : id = R
  · subst hid
    have hbare := h.receiver
    cases hw : d.wallets.find id with
    | none =>
        rw [hw, Option.map_none, eq_comm, Option.map_eq_none_iff] at hbare
        rw [hbare]
        exact .none
    | some w =>
        rw [hw, Option.map_some, eq_comm, Option.map_eq_some_iff] at hbare
        obtain ⟨w', hw', he⟩ := hbare
        rw [hw']
        exact .some ⟨Table.find_key hw, he.symm, fun hne => absurd rfl hne⟩
  · rw [h.wallets id hid]
    cases hw : d'.wallets.find id with
    | none => exact .none
    | some w => exact .some ⟨Table.find_key hw, rfl, fun _ => rfl⟩

theorem SameDb.missing (h : SameDb R d d') (id : Uuid) :
    d.wallets.find id = none ↔ d'.wallets.find id = none :=
  rel_none (h.find id)

/-- A row id is taken in both ledgers or in neither, when no row of `R` decides it. -/
theorem SameDb.taken (h : SameDb R d d') {id : Uuid} (hid : LedgerId R d id ↔ LedgerId R d' id) :
    d.transactions.find id = none ↔ d'.transactions.find id = none := by
  have hhalf : ∀ {d d' : Db}, SameDb R d d' → (LedgerId R d id → LedgerId R d' id) →
      d'.transactions.find id = none → d.transactions.find id = none := by
    intro d d' h hid hnone
    rw [Table.find_eq_none] at hnone ⊢
    intro t ht hkey
    by_cases hw : t.walletId = R
    · obtain ⟨t', ht', -, hkey'⟩ := hid ⟨t, ht, hw, hkey⟩
      exact hnone t' ht' hkey'
    · exact hnone t ((h.ledger t hw).mp ht) hkey
  have hsymm : SameDb R d' d :=
    ⟨fun k hk => (h.wallets k hk).symm, h.receiver.symm, fun t ht => (h.ledger t ht).symm,
      h.auditLogs.symm, h.outboxEvents.symm⟩
  exact ⟨hhalf hsymm hid.mpr, hhalf h hid.mp⟩

theorem SameDb.updateWallet (h : SameDb R d d') {id : Uuid} {b b' : Int4} (hb : id ≠ R → b = b') :
    SameDb R (d.updateWallet id b) (d'.updateWallet id b') where
  wallets k hk := by
    rw [Db.updateWallet_wallets, Db.updateWallet_wallets, Table.find_modify, Table.find_modify]
    split_ifs with hkid
    · subst hkid
      rw [hb hk, h.wallets k hk]
    · exact h.wallets k hk
  receiver := by
    rw [Db.updateWallet_wallets, Db.updateWallet_wallets, Table.find_modify, Table.find_modify]
    split_ifs with hR
    · have hbare : ∀ c : Int4, bare ∘ (fun w : Wallet => { w with balance := c }) = bare :=
        fun c => rfl
      subst hR
      rw [Option.map_map, Option.map_map, hbare, hbare, h.receiver]
    · exact h.receiver
  ledger := h.ledger
  auditLogs := h.auditLogs
  outboxEvents := h.outboxEvents

/-- Ledger rows that differ only where they belong to `R`. -/
structure SameRow (R : Uuid) (row row' : Transaction) : Prop where
  id : row.id = row'.id
  walletId : row.walletId = row'.walletId
  other : row.walletId ≠ R → row = row'

theorem createTransaction_none {t : Transaction} : d.createTransaction t = none ↔
    d.wallets.find t.walletId = none ∨ d.transactions.find t.id ≠ none := by
  constructor
  · intro h
    by_contra hor
    rw [not_or, not_not] at hor
    unfold Db.createTransaction at h
    rw [dif_neg hor.1] at h
    split at h
    · next hins => exact Table.insert_refused hins hor.2
    · cases h
  · intro h
    by_contra hsome
    obtain ⟨e, he⟩ := Option.ne_none_iff_exists'.mp hsome
    have hfresh := Table.insert_fresh (Db.createTransaction_cases he).1
    rcases h with hw | ht
    · unfold Db.createTransaction at he
      rw [dif_pos hw] at he
      cases he
    · exact ht hfresh

theorem SameDb.createTransaction (h : SameDb R d d') {row row' : Transaction}
    (hrow : SameRow R row row')
    (hid : d.transactions.find row.id = none ↔ d'.transactions.find row.id = none) :
    Option.Rel (fun e e' => SameDb R e e' ∧ ∀ id,
      (d.transactions.find id = none ↔ d'.transactions.find id = none) →
      (e.transactions.find id = none ↔ e'.transactions.find id = none))
      (d.createTransaction row) (d'.createTransaction row') := by
  refine rel_of_some ?_ fun e e' he he' => ⟨?_, fun id htaken => ?_⟩
  · rw [createTransaction_none, createTransaction_none, ← hrow.walletId, ← hrow.id, h.missing]
    exact or_congr_right (not_congr hid)
  · obtain ⟨ht, hw, ha, ho⟩ := Db.createTransaction_cases he
    obtain ⟨ht', hw', ha', ho'⟩ := Db.createTransaction_cases he'
    refine ⟨hw ▸ hw' ▸ h.wallets, hw ▸ hw' ▸ h.receiver, fun t hne => ?_, ha ▸ ha' ▸ h.auditLogs,
      ho ▸ ho' ▸ h.outboxEvents⟩
    rw [Table.mem_insert ht, Table.mem_insert ht', h.ledger t hne]
    refine or_congr_right ⟨fun he => ?_, fun he => ?_⟩
    · rw [he, hrow.other (he ▸ hne)]
    · rw [he, hrow.other (hrow.walletId ▸ he ▸ hne)]
  · obtain ⟨ht, -⟩ := Db.createTransaction_cases he
    obtain ⟨ht', -⟩ := Db.createTransaction_cases he'
    rw [Table.find_insert ht, Table.find_insert ht', ← hrow.id]
    split_ifs
    · exact ⟨nofun, nofun⟩
    · exact htaken

end SameDb

/-! ## Writes -/

/-- What the two runs have in common, seen by a user who does not own wallet `R`;
the row ids in `ids` may still be drawn. -/
structure SameShared (R user : Uuid) (ids : List Uuid) (s s' : Shared) : Prop where
  db : SameDb R s.db s'.db
  stranger : ∀ w, s.db.wallets.find R = some w → w.userId ≠ user
  taken : ∀ id ∈ ids, s.db.transactions.find id = none ↔ s'.db.transactions.find id = none
  users : s.users = s'.users
  transferIds : s.transferIds = s'.transferIds
  heard : heardBy user s.emitted = heardBy user s'.emitted

/-- Only a balance of `R` and a ledger row of `R` may be written differently. -/
inductive SameWrite (R : Uuid) (ids : List Uuid) : Stmt → Stmt → Prop
  | updateWallet (id : Uuid) {b b' : Int4} (hb : id ≠ R → b = b') :
      SameWrite R ids (.updateWallet id b) (.updateWallet id b')
  | createTransaction {row row' : Transaction} (hrow : SameRow R row row') (hid : row.id ∈ ids) :
      SameWrite R ids (.createTransaction row) (.createTransaction row')
  | createAuditLog (row : AuditLog) :
      SameWrite R ids (.createAuditLog row) (.createAuditLog row)
  | createOutboxEvent (row : OutboxEvent) :
      SameWrite R ids (.createOutboxEvent row) (.createOutboxEvent row)

section SameShared
variable {R user : Uuid} {ids : List Uuid} {s s' : Shared}

/-- The tables of both runs move on, their owners and the rest stay. -/
theorem SameShared.withDb (h : SameShared R user ids s s') {d d' : Db} (hd : SameDb R d d')
    (howner : ∀ w, d.wallets.find R = some w → ∃ v, s.db.wallets.find R = some v ∧
      w.userId = v.userId)
    (htaken : ∀ id ∈ ids, d.transactions.find id = none ↔ d'.transactions.find id = none) :
    SameShared R user ids { s with db := d } { s' with db := d' } where
  db := hd
  stranger w hw := by
    obtain ⟨v, hv, he⟩ := howner w hw
    rw [he]
    exact h.stranger v hv
  taken := htaken
  users := h.users
  transferIds := h.transferIds
  heard := h.heard

theorem SameShared.exec (h : SameShared R user ids s s') {w w' : Stmt} (hw : SameWrite R ids w w') :
    Option.Rel (SameShared R user ids) (WalletsMachine.exec w s) (WalletsMachine.exec w' s') := by
  cases hw with
  | @updateWallet id b b' hb =>
      simp only [WalletsMachine.exec, Stmt.exec, h.db.missing id]
      split_ifs with hmissing
      · exact .none
      · refine .some (h.withDb (h.db.updateWallet hb) (fun w hw => ?_) h.taken)
        rw [Db.updateWallet_wallets, Table.find_modify] at hw
        split_ifs at hw with hid
        · subst hid
          obtain ⟨v, hv, rfl⟩ := Option.map_eq_some_iff.mp hw
          exact ⟨v, hv, rfl⟩
        · exact ⟨w, hw, rfl⟩
  | @createTransaction row row' hrow hid =>
      have hrel := h.db.createTransaction hrow (h.taken _ hid)
      simp only [WalletsMachine.exec, Stmt.exec]
      generalize ht : s.db.createTransaction row = o at hrel
      generalize s'.db.createTransaction row' = o' at hrel
      cases hrel with
      | none => exact .none
      | some hd =>
          refine .some (h.withDb hd.1 (fun w hw => ?_) fun id hmem => hd.2 id (h.taken id hmem))
          rw [(Db.createTransaction_cases ht).2.1] at hw
          exact ⟨w, hw, rfl⟩
  | createAuditLog row =>
      simp only [WalletsMachine.exec, Stmt.exec, ← h.db.auditLogs]
      cases s.db.auditLogs.insert row with
      | none => exact .none
      | some auditLogs =>
          have hd : SameDb R { s.db with auditLogs := auditLogs }
              { s'.db with auditLogs := auditLogs } :=
            ⟨h.db.wallets, h.db.receiver, h.db.ledger, rfl, h.db.outboxEvents⟩
          exact .some (h.withDb hd (fun w hw => ⟨w, hw, rfl⟩) h.taken)
  | createOutboxEvent row =>
      simp only [WalletsMachine.exec, Stmt.exec, ← h.db.outboxEvents]
      cases s.db.outboxEvents.insert row with
      | none => exact .none
      | some outboxEvents =>
          have hd : SameDb R { s.db with outboxEvents := outboxEvents }
              { s'.db with outboxEvents := outboxEvents } :=
            ⟨h.db.wallets, h.db.receiver, h.db.ledger, h.db.auditLogs, rfl⟩
          exact .some (h.withDb hd (fun w hw => ⟨w, hw, rfl⟩) h.taken)

end SameShared

/-! ## Control states -/

/-- Two balance updates, the same or both to other users. -/
def SamePayload (user : Uuid) (p p' : BalancePayload) : Prop :=
  p = p' ∨ p.userId ≠ user ∧ p'.userId ≠ user

structure SameCommitted (user : Uuid) (r r' : Committed) : Prop where
  response : r.response = r'.response
  owners : List.Forall₂ (SamePayload user) r.owners r'.owners
  event : r.event = r'.event

/-- A transfer to `R` from another wallet, with row ids among `ids`. -/
structure Sends (R : Uuid) (ids : List Uuid) (fromWalletId : Uuid) (dto : TransferDto)
    (draw : Draw) : Prop where
  dest : dto.toWalletId = R
  other : fromWalletId ≠ R
  rowId : draw.rowId ∈ ids
  inRowId : draw.inRowId ∈ ids

/-- Where a call stands in both runs. What was read of the receiver outside the
block is kept, but only its currency was used. -/
inductive SamePc (R user : Uuid) (ids : List Uuid) : Pc → Pc → Prop
  | idle : SamePc R user ids .idle .idle
  | start {fromWalletId : Uuid} {actor : AuthUser} {dto : TransferDto} {draw : Draw}
      (hto : dto.toWalletId = R) (hout : draw.rowId ∈ ids) (hin : draw.inRowId ∈ ids) :
      SamePc R user ids (.start (.transfer fromWalletId actor dto) draw)
        (.start (.transfer fromWalletId actor dto) draw)
  | readDestination {source : Wallet} {actor : AuthUser} {dto : TransferDto} {draw : Draw}
      (h : Sends R ids source.id dto draw) :
      SamePc R user ids (.readDestination source actor dto draw)
        (.readDestination source actor dto draw)
  | getRate {source dest dest' : Wallet} {actor : AuthUser} {dto : TransferDto} {draw : Draw}
      (h : Sends R ids source.id dto draw) :
      SamePc R user ids (.getRate source dest actor dto draw)
        (.getRate source dest' actor dto draw)
  | findSender {a : TransferArgs} {draw : Draw} (h : Sends R ids a.fromWalletId a.dto draw) :
      SamePc R user ids (.findSender a draw) (.findSender a draw)
  | transaction {a : TransferArgs} {draw : Draw} (h : Sends R ids a.fromWalletId a.dto draw) :
      SamePc R user ids (.transaction (.transfer a) draw) (.transaction (.transfer a) draw)
  | emit {r r' : Committed} (h : SameCommitted user r r') : SamePc R user ids (.emit r) (.emit r')
  | emitFailed {r r' : Committed} : SamePc R user ids (.emitFailed r) (.emitFailed r')
  | publishNow (event : NotificationPushEvent) (response : Response) :
      SamePc R user ids (.publishNow event response) (.publishNow event response)
  | done (response : Response) : SamePc R user ids (.done response) (.done response)
  | failed (e : HttpException) : SamePc R user ids (.failed e) (.failed e)

theorem SamePc.answer {R user : Uuid} {ids : List Uuid} {p p' : Pc} (h : SamePc R user ids p p') :
    answer p = answer p' := by
  cases h <;> rfl

/-- What the schedule may feed to a call. -/
def SameInput (R : Uuid) (ids : List Uuid) : Input → Prop
  | .call (.transfer _ _ dto) draw =>
      dto.toWalletId = R ∧ draw.rowId ∈ ids ∧ draw.inRowId ∈ ids
  | .call _ _ => False
  | _ => True

section Step
variable {R user : Uuid} {ids : List Uuid} {s s' : Shared}

/-- Answers of one statement in both runs. -/
abbrev SameStep (R user : Uuid) (ids : List Uuid) (r r' : Pc × Shared) : Prop :=
  SamePc R user ids r.1 r'.1 ∧ SameShared R user ids r.2 r'.2

theorem idle_same {i : Input} (hi : SameInput R ids i) (h : SameShared R user ids s s') :
    Option.Rel (SameStep R user ids) (step i .idle s) (step i .idle s') := by
  cases i with
  | users users =>
      exact .some ⟨.idle, h.db, h.stranger, h.taken, rfl, h.transferIds, h.heard⟩
  | call call draw =>
      cases call with
      | transfer fromWalletId actor dto =>
          obtain ⟨hto, hout, hin⟩ := hi
          simp only [step, h.transferIds]
          split_ifs with hdrawn
          · exact .none
          · exact .some ⟨.start hto hout hin, h.db, h.stranger, h.taken, h.users, rfl, h.heard⟩
      | _ => exact hi.elim
  | _ => exact .none

/-- The source is not `R`, so it is read alike. -/
theorem start_same {i : Input} {fromWalletId : Uuid} {actor : AuthUser} {dto : TransferDto}
    {draw : Draw} (hto : dto.toWalletId = R) (hout : draw.rowId ∈ ids) (hin : draw.inRowId ∈ ids)
    (h : SameShared R user ids s s') :
    Option.Rel (SameStep R user ids) (step i (.start (.transfer fromWalletId actor dto) draw) s)
      (step i (.start (.transfer fromWalletId actor dto) draw) s') := by
  cases i with
  | go =>
      simp only [step, begin]
      split_ifs with hself
      · exact .some ⟨.failed _, h⟩
      · have hother : fromWalletId ≠ R := by
          rw [hto] at hself
          exact Ne.symm hself
        have hread : getOwnedWallet s.db fromWalletId actor =
            getOwnedWallet s'.db fromWalletId actor := by
          rw [getOwnedWallet, getOwnedWallet, h.db.wallets _ hother]
        rw [hread]
        cases hsource : getOwnedWallet s'.db fromWalletId actor with
        | error e => exact .some ⟨.failed e, h⟩
        | ok source =>
            have hid : source.id = fromWalletId := (getOwnedWallet_ok hsource).2.1
            exact .some ⟨.readDestination ⟨hto, hid ▸ hother, hout, hin⟩, h⟩
  | lost => exact .some ⟨.failed _, h⟩
  | _ => exact .none

/-- Of the destination only the currency decides. -/
theorem readDestination_same {i : Input} {source : Wallet} {actor : AuthUser} {dto : TransferDto}
    {draw : Draw} (hsends : Sends R ids source.id dto draw) (h : SameShared R user ids s s') :
    Option.Rel (SameStep R user ids) (step i (.readDestination source actor dto draw) s)
      (step i (.readDestination source actor dto draw) s') := by
  cases i with
  | go =>
      have hdest := h.db.find dto.toWalletId
      simp only [step, readDestination]
      generalize s.db.wallets.find dto.toWalletId = o at hdest
      generalize s'.db.wallets.find dto.toWalletId = o' at hdest
      cases hdest with
      | none => exact .some ⟨.failed _, h⟩
      | @some dest dest' hsame =>
          simp only [hsame.columns.2.2]
          split_ifs
          · exact .some ⟨.getRate hsends, h⟩
          · exact .some ⟨.findSender hsends, h⟩
  | lost => exact .some ⟨.failed _, h⟩
  | _ => exact .none

theorem heard_balances {l l' : List BalancePayload} (h : List.Forall₂ (SamePayload user) l l') :
    heardBy user (l.map .balanceUpdated) = heardBy user (l'.map .balanceUpdated) := by
  induction h with
  | nil => rfl
  | @cons p p' l l' hp _ ih =>
      rw [heardBy, heardBy] at ih ⊢
      rw [List.map_cons, List.map_cons, List.filter_cons, List.filter_cons, ih]
      rcases hp with rfl | ⟨hp, hp'⟩
      · rfl
      · simp [room, hp, hp']

theorem heard_append (events sent : List SocketEvent) :
    heardBy user (events ++ sent) = heardBy user events ++ heardBy user sent :=
  List.filter_append ..

theorem SameShared.emit (h : SameShared R user ids s s') {sent sent' : List SocketEvent}
    (hsent : heardBy user sent = heardBy user sent') :
    SameShared R user ids { s with emitted := s.emitted ++ sent }
      { s' with emitted := s'.emitted ++ sent' } where
  db := h.db
  stranger := h.stranger
  taken := h.taken
  users := h.users
  transferIds := h.transferIds
  heard := by rw [heard_append, heard_append, h.heard, hsent]

/-- The room of the observer hears the same, however far the emits come. -/
theorem emit_same {r r' : Committed} {sent : ℕ} {toast : Bool} (hr : SameCommitted user r r')
    (h : SameShared R user ids s s') :
    SameStep R user ids (WalletsService.emit s r sent toast)
      (WalletsService.emit s' r' sent toast) := by
  have hlen : r.owners.length = r'.owners.length := hr.owners.length_eq
  have hall := heard_balances hr.owners
  have htake := heard_balances (List.forall₂_take sent hr.owners)
  simp only [WalletsService.emit, List.length_map, hlen, ← hr.event, ← hr.response]
  split
  · rw [List.map_take, List.map_take] at htake
    exact ⟨.emitFailed, h.emit htake⟩
  · cases r.event with
    | none => exact ⟨.done _, h.emit hall⟩
    | some event => exact ⟨.publishNow event _, (h.emit hall).emit rfl⟩

theorem SameShared.publish (h : SameShared R user ids s s') (id : Uuid) (ok : Bool) (now : Time) :
    SameShared R user ids { s with db := markPublished s.db id ok now }
      { s' with db := markPublished s'.db id ok now } := by
  refine h.withDb ⟨h.db.wallets, h.db.receiver, h.db.ledger, h.db.auditLogs, ?_⟩
    (fun w hw => ⟨w, hw, rfl⟩) h.taken
  simp only [markPublished, h.db.outboxEvents]

/-- Every statement outside a block answers alike. -/
theorem step_same {i : Input} {p p' : Pc} (hi : SameInput R ids i) (hp : SamePc R user ids p p')
    (h : SameShared R user ids s s') :
    Option.Rel (SameStep R user ids) (step i p s) (step i p' s') := by
  cases hp with
  | idle => exact idle_same hi h
  | start hto hout hin => exact start_same hto hout hin h
  | readDestination hsends => exact readDestination_same hsends h
  | getRate hsends =>
      cases i with
      | rate answer =>
          cases answer with
          | error e => exact .some ⟨.failed e, h⟩
          | ok rate => exact .some ⟨.findSender hsends, h⟩
      | _ => exact .none
  | findSender hsends =>
      cases i with
      | go =>
          simp only [step, h.users]
          exact .some ⟨.transaction hsends, h⟩
      | lost => exact .some ⟨.transaction hsends, h⟩
      | _ => exact .none
  | transaction hsends => cases i <;> exact .none
  | emit hr =>
      cases i with
      | sockets sent toast => exact .some (emit_same hr h)
      | _ => exact .none
  | emitFailed => cases i <;> exact .none
  | publishNow event response =>
      cases i with
      | published ok marked now =>
          cases marked with
          | false => exact .some ⟨.done response, h⟩
          | true => exact .some ⟨.done response, h.publish event.id ok now⟩
      | _ => exact .none
  | done response => cases i <;> exact .none
  | failed e => cases i <;> exact .none

end Step

/-! ## The transaction block -/

/-- Rows read under a lock; the owner of `R` is not the observer. -/
inductive SameRead (R user : Uuid) : RowKey → Row → Row → Prop
  | wallet {id : Uuid} {w w' : Wallet} (hsame : SameWallet R id w w')
      (hstranger : id = R → w.userId ≠ user) :
      SameRead R user (.wallet id) (.wallet w) (.wallet w')

/-- The block has read that its credit takes the balance of `R` out of range. -/
inductive Excused (R : Uuid) : Pc → List (RowKey × Row × Row) → Prop
  | overrun {a : TransferArgs} {draw : Draw} {reads : List (RowKey × Row × Row)}
      {source dest dest' : Wallet} {credit : ℤ}
      (hsource : (.wallet a.fromWalletId, .wallet source, .wallet source) ∈ reads)
      (hdest : (.wallet R, .wallet dest, .wallet dest') ∈ reads)
      (hcredit : a.credit = some credit) (hfunds : a.dto.amount ≤ source.balance.val)
      (hover : Int4.ofInt? (dest.balance.val + credit) = none ∨
        Int4.ofInt? (dest'.balance.val + credit) = none) :
      Excused R (.transaction (.transfer a) draw) reads

/-- What the two runs may differ in. -/
def likeness (R user : Uuid) (ids : List Uuid) :
    Likeness Shared RowKey Row Stmt Committed Input Pc where
  data := SameShared R user ids
  shown k := ∃ id, k = .wallet id
  row := SameRead R user
  write := SameWrite R ids
  result := SameCommitted user
  pc := SamePc R user ids
  input := SameInput R ids
  excused := Excused R

section Block
variable {R user : Uuid} {ids : List Uuid} {p : Pc} {reads : List (RowKey × Row × Row)}

theorem alike_lockWallet {id : Uuid} {next next' : Option Wallet → TxBlock}
    (hnone : (likeness R user ids).Alike p reads (next none) (next' none))
    (hsome : ∀ w w', SameWallet R id w w' → (id = R → w.userId ≠ user) →
      ¬ Excused R p ((.wallet id, .wallet w, .wallet w') :: reads) →
      (likeness R user ids).Alike p ((.wallet id, .wallet w, .wallet w') :: reads)
        (next (some w)) (next' (some w'))) :
    (likeness R user ids).Alike p reads (lockWallet id next) (lockWallet id next') := by
  refine .lock ⟨id, rfl⟩ hnone fun v v' hrow hex => ?_
  cases hrow with
  | wallet hsame hstranger => exact hsome _ _ hsame hstranger hex

theorem alike_withInt4 {z : ℤ} {next next' : Int4 → TxBlock}
    (h : ∀ v, (likeness R user ids).Alike p reads (next v) (next' v)) :
    (likeness R user ids).Alike p reads (withInt4 z next) (withInt4 z next') := by
  unfold withInt4
  cases Int4.ofInt? z with
  | none => exact .fail _
  | some v => exact h v

theorem alike_withRate {rate : Option Decimal} {next next' : Option Dec → TxBlock}
    (h : ∀ r, (likeness R user ids).Alike p reads (next r) (next' r)) :
    (likeness R user ids).Alike p reads (withRate rate next) (withRate rate next') := by
  unfold withRate
  cases rate with
  | none => exact h none
  | some r =>
      dsimp only
      cases r.toColumn with
      | none => exact .fail _
      | some d => exact h (some d)

/-- Both rows are locked; what is left of the block shows the receiver's balance
only in what is written to `R` and sent to its owner. -/
theorem alike_transferWrites {a : TransferArgs} {draw : Draw} {source dest dest' : Wallet}
    (hsends : Sends R ids a.fromWalletId a.dto draw) (hsource : source.id = a.fromWalletId)
    (hdest : SameWallet R R dest dest') (hstranger : dest.userId ≠ user)
    (hrange : ∀ credit, a.credit = some credit → a.dto.amount ≤ source.balance.val →
      Int4.ofInt? (dest.balance.val + credit) ≠ none ∧
        Int4.ofInt? (dest'.balance.val + credit) ≠ none) :
    (likeness R user ids).Alike p reads (transferWrites a draw source dest)
      (transferWrites a draw source dest') := by
  obtain ⟨hid, huser, hcurrency⟩ := hdest.columns
  have hR : dest.id = R := hdest.id_eq
  have hother : source.id ≠ R := hsource ▸ hsends.other
  unfold transferWrites
  split_ifs with hfunds
  · exact .fail _
  refine alike_withInt4 fun fromAfter => .write (.updateWallet _ fun _ => rfl) ?_
  cases hcredit : a.credit with
  | none => exact .fail _
  | some credit =>
      obtain ⟨hin, hin'⟩ := hrange credit hcredit (not_lt.mp hfunds)
      obtain ⟨toAfter, hafter⟩ := Option.ne_none_iff_exists'.mp hin
      obtain ⟨toAfter', hafter'⟩ := Option.ne_none_iff_exists'.mp hin'
      dsimp only
      rw [withInt4, withInt4, hafter, hafter']
      dsimp only
      rw [← hid, ← huser, ← hcurrency]
      refine .write (.updateWallet _ fun hne => absurd hR hne) ?_
      refine alike_withRate fun rate => alike_withInt4 fun amount => ?_
      refine .write (.createTransaction ⟨rfl, rfl, fun _ => rfl⟩ hsends.rowId) ?_
      refine alike_withInt4 fun credited => ?_
      refine .write (.createTransaction ⟨rfl, rfl, fun hne => absurd hR hne⟩ hsends.inRowId) ?_
      refine .write (.createAuditLog _) (.write (.createOutboxEvent _) (.commit ⟨rfl, ?_, rfl⟩))
      have hstranger' : dest'.userId ≠ user := huser ▸ hstranger
      have hto : SamePayload user (balanceOf dest toAfter) (balanceOf dest' toAfter') :=
        .inr ⟨hstranger, hstranger'⟩
      exact .cons (.inl rfl) (.cons hto .nil)

/-- The locks are taken in the same order in both runs. -/
theorem alike_transferBlock {a : TransferArgs} {draw : Draw}
    (hsends : Sends R ids a.fromWalletId a.dto draw) :
    (likeness R user ids).Alike (.transaction (.transfer a) draw) [] (transferBlock a draw)
      (transferBlock a draw) := by
  have hfound : ∀ {source source' dest dest' : Wallet} {reads : List (RowKey × Row × Row)},
      SameWallet R a.fromWalletId source source' → SameWallet R a.dto.toWalletId dest dest' →
      (a.dto.toWalletId = R → dest.userId ≠ user) →
      (.wallet a.fromWalletId, .wallet source, .wallet source') ∈ reads →
      (.wallet a.dto.toWalletId, .wallet dest, .wallet dest') ∈ reads →
      ¬ Excused R (.transaction (.transfer a) draw) reads →
      (likeness R user ids).Alike (.transaction (.transfer a) draw) reads
        (transferWrites a draw source dest) (transferWrites a draw source' dest') := by
    intro source source' dest dest' reads hsource hdest hstranger hms hmd hex
    have hsame : source = source' := hsource.other hsends.other
    subst hsame
    rw [hsends.dest] at hdest hstranger hmd
    refine alike_transferWrites hsends hsource.id_eq hdest (hstranger rfl) ?_
    refine fun credit hcredit hfunds => ⟨fun hover => ?_, fun hover => ?_⟩
    · exact hex (.overrun hms hmd hcredit hfunds (.inl hover))
    · exact hex (.overrun hms hmd hcredit hfunds (.inr hover))
  unfold transferBlock
  split_ifs with horder
  · refine alike_lockWallet ?_ fun source source' hsource _ _ => ?_
    · exact alike_lockWallet (.fail _) fun _ _ _ _ _ => .fail _
    · refine alike_lockWallet (.fail _) fun dest dest' hdest hstranger hex => ?_
      exact hfound hsource hdest hstranger (by simp) (by simp) hex
  · refine alike_lockWallet ?_ fun dest dest' hdest hstranger _ => ?_
    · exact alike_lockWallet (.fail _) fun _ _ _ _ _ => .fail _
    · refine alike_lockWallet (.fail _) fun source source' hsource _ hex => ?_
      exact hfound hsource hdest hstranger (by simp) (by simp) hex

theorem likeness_lawful : (likeness R user ids).Lawful program where
  view {s s' k} hk h := by
    obtain ⟨id, rfl⟩ := hk
    have hfind := h.db.find id
    change Option.Rel _ ((s.db.wallets.find id).map Row.wallet)
      ((s'.db.wallets.find id).map Row.wallet)
    generalize hw : s.db.wallets.find id = o at hfind
    generalize s'.db.wallets.find id = o' at hfind
    cases hfind with
    | none => exact .none
    | some hsame => exact .some (.wallet hsame fun hid => h.stranger _ (hid ▸ hw))
  frozen {s s' k} h := by
    cases k with
    | transaction id => rfl
    | wallet id =>
        have hfind := h.db.find id
        change owner s.db id = owner s'.db id
        rw [owner, owner]
        generalize s.db.wallets.find id = o at hfind
        generalize s'.db.wallets.find id = o' at hfind
        cases hfind with
        | none => rfl
        | some hsame =>
            rw [Option.map_some, Option.map_some, hsame.columns.2.1, hsame.columns.2.2]
  exec h hw := h.exec hw
  step hi hp h := step_same hi hp h
  block {p p'} hp := by
    cases hp with
    | transaction hsends => exact .some (alike_transferBlock hsends)
    | _ => exact .none
  committed _ hr := .emit hr
  failed e _ := .failed e

end Block

/-! ## Two runs -/

section Runs
variable {R user : Uuid} {ids : List Uuid} {l : ℕ × Act Input} {t t' : Machine}

/-- What a block reads under its locks is what `overruns` looks at. -/
theorem overruns_of_read {a : TransferArgs} {draw : Draw} {rest : TxBlock} {ws : List Stmt}
    {source dest : Wallet} {credit : ℤ}
    (hclient : t.client l.1 = .inside (.transaction (.transfer a) draw) rest ws)
    (hsource : t.holds l.1 (.wallet a.fromWalletId) ∧
      program.view (.wallet a.fromWalletId) t.data = some (.wallet source))
    (hdest : t.holds l.1 (.wallet R) ∧ program.view (.wallet R) t.data = some (.wallet dest))
    (hcredit : a.credit = some credit) (hfunds : a.dto.amount ≤ source.balance.val)
    (hover : Int4.ofInt? (dest.balance.val + credit) = none) : overruns R l t = true := by
  have hfind : ∀ {id : Uuid} {w : Wallet}, program.view (.wallet id) t.data = some (.wallet w) →
      t.data.db.wallets.find id = some w := by
    intro id w hview
    obtain ⟨v, hv, he⟩ := Option.map_eq_some_iff.mp hview
    cases he
    exact hv
  obtain ⟨hlock, hview⟩ := hsource
  obtain ⟨hlock', hview'⟩ := hdest
  rw [State.holds] at hlock hlock'
  simp [overruns, hclient, hfind hview, hfind hview', hcredit, hlock, hlock', hfunds, hover]

theorem unexcused_of_range (h : overruns R l t = false) (h' : overruns R l t' = false) :
    Unexcused (likeness R user ids) program t t' l.1 := by
  intro p p' rest rest' ws ws' reads hc hc' hpc hread hexc
  cases hexc with
  | overrun hsource hdest hcredit hfunds hover =>
      cases hpc with
      | transaction hsends =>
          obtain ⟨hs, hs'⟩ := hread _ _ _ hsource
          obtain ⟨hd, hd'⟩ := hread _ _ _ hdest
          rcases hover with hover | hover
          · rw [overruns_of_read hc hs hd hcredit hfunds hover] at h
            cases h
          · rw [overruns_of_read hc' hs' hd' hcredit hfunds hover] at h'
            cases h'

/-- Two databases that differ in `R` alone let the same schedules run, to twin states. -/
theorem trace_twins {s : Shared} {d d' : Db} {ls : Schedule} (hsame : SameDb R d d')
    (huser : ∀ w, d.wallets.find R = some w → w.userId ≠ user)
    (hcalls : ∀ l ∈ ls, ToReceiver R l)
    (hids : ∀ id ∈ ls.flatMap rowIds, LedgerId R d id ↔ LedgerId R d' id)
    (h : staysInRange R ls { s with db := d } = true)
    (h' : staysInRange R ls { s with db := d' } = true) :
    Option.Rel (fun r r' => Twins (likeness R user (ls.flatMap rowIds)) program r.2 r'.2)
      (trace next ls (start { s with db := d })) (trace next ls (start { s with db := d' })) := by
  have hshared : SameShared R user (ls.flatMap rowIds) { s with db := d } { s with db := d' } :=
    ⟨hsame, huser, fun id hid => hsame.taken (hids id hid), rfl, rfl, rfl⟩
  refine trace_rel (fun l => l ∈ ls) _ ?_ (fun l hl => hl)
    (Twins.idle hshared fun _ => .idle) h h'
  intro l t t' hl htwins hrange hrange'
  refine next_twins likeness_lawful htwins (fun i hi => ?_) fun u u' hu hu' => ?_
  · obtain ⟨c, a⟩ := l
    cases hi
    have hcall := hcalls _ hl
    have hdrawn : ∀ id ∈ rowIds (c, .step i), id ∈ ls.flatMap rowIds :=
      fun id hid => List.mem_flatMap.mpr ⟨_, hl, hid⟩
    cases i with
    | call call draw =>
        cases call with
        | transfer fromWalletId actor dto =>
            exact ⟨hcall, hdrawn _ (by simp [rowIds]), hdrawn _ (by simp [rowIds])⟩
        | _ => exact hcall.elim
    | _ => trivial
  · refine unexcused_of_range ?_ ?_
    · simpa using hrange u hu
    · simpa using hrange' u' hu'

theorem twins_answer (h : Twins (likeness R user ids) program t t') (c : ℕ) :
    answer (t.client c).pc = answer (t'.client c).pc := by
  have hphase := h.client c
  generalize t.client c = ph at hphase
  generalize t'.client c = ph' at hphase
  cases hphase with
  | outside hpc => exact hpc.answer
  | inside reads hpc _ _ _ => exact hpc.answer

end Runs

/-- A user who does not own wallet `R` learns nothing of its balance from
transfers to it: two databases that differ only there answer every schedule of
such transfers with the same results and errors, the same events in the user's
room and the same other wallets. -/
theorem transfers_hide_balance {R user : Uuid} {s : Shared} {d d' : Db} {ls : Schedule}
    (hsame : SameDb R d d') (huser : ∀ w, d.wallets.find R = some w → w.userId ≠ user)
    (hcalls : ∀ l ∈ ls, ToReceiver R l)
    (hids : ∀ id ∈ ls.flatMap rowIds, LedgerId R d id ↔ LedgerId R d' id)
    (h : staysInRange R ls { s with db := d } = true)
    (h' : staysInRange R ls { s with db := d' } = true)
    {tr : Trace} {t : Machine} (hrun : Run next (start { s with db := d }) tr t)
    (hls : tr.map Event.label = ls) :
    ∃ tr' t', Run next (start { s with db := d' }) tr' t' ∧ tr'.map Event.label = ls ∧
      (∀ c, answer (t.client c).pc = answer (t'.client c).pc) ∧
      heardBy user t.data.emitted = heardBy user t'.data.emitted ∧
      ∀ id, id ≠ R → t.data.db.wallets.find id = t'.data.db.wallets.find id := by
  have hrel := trace_twins hsame huser hcalls hids h h'
  have htrace := hrun.trace_eq
  rw [hls] at htrace
  rw [htrace] at hrel
  generalize htrace' : trace next ls (start { s with db := d' }) = r at hrel
  cases hrel with
  | @some _ r htwins =>
      have hrun' := Run.of_trace htrace'
      exact ⟨r.1, r.2, hrun'.1, hrun'.2, twins_answer htwins, htwins.data.heard,
        htwins.data.db.wallets⟩

/-- User 1 has twelve dollars in wallet 10, user 2 the balance `b` in wallet 11. -/
def twoUsers (b : Int4) : Shared where
  db :=
    ⟨⟨[⟨10, 1, "", "USD", ⟨1200, by norm_num⟩⟩, ⟨11, 2, "", "USD", b⟩],
      by simp⟩,
      .empty, .empty, .empty, by simp⟩
  users := fun _ => none
  transferIds := []
  emitted := []

/-- User 1 sends three dollars, then asks for more than is left. -/
def sendTwice : Schedule :=
  [(0, .step (.call (.transfer 10 (customer 1) ⟨11, 300, none, by decide⟩) (numbered 20))),
    (0, .step .go), (0, .step .go), (0, .step .go)] ++ commitBlock 0 8 ++
  [(0, .step (.sockets 2 true)),
    (1, .step (.call (.transfer 10 (customer 1) ⟨11, 950, none, by decide⟩) (numbered 30))),
    (1, .step .go), (1, .step .go), (1, .step .go), (1, .enter), (1, .advance), (1, .advance),
    (1, .advance)]

def poor : Int4 := .zero

def rich : Int4 := ⟨2000000000, by norm_num⟩

theorem twoUsers_same (b b' : Int4) : SameDb 11 (twoUsers b).db (twoUsers b').db where
  wallets id hid := by
    by_cases h : id = 10
    · subst h
      rfl
    · have hnone : ∀ c : Int4, (twoUsers c).db.wallets.find id = none := by
        intro c
        rw [Table.find_eq_none]
        simp [twoUsers, Ne.symm h, Ne.symm hid]
      rw [hnone, hnone]
  receiver := rfl
  ledger _ _ := Iff.rfl
  auditLogs := rfl
  outboxEvents := rfl

theorem transfers_hide_balance_sendTwice :
    ∃ tr t tr' t', Run next (start (twoUsers poor)) tr t ∧ tr.map Event.label = sendTwice ∧
      Run next (start (twoUsers rich)) tr' t' ∧ tr'.map Event.label = sendTwice ∧
      (t.data.db.wallets.find 10).map (fun w => w.balance.val) = some 900 ∧
      t.data.db.wallets.find 10 = t'.data.db.wallets.find 10 ∧
      (∀ c, answer (t.client c).pc = answer (t'.client c).pc) ∧
      heardBy 1 t.data.emitted = heardBy 1 t'.data.emitted := by
  obtain ⟨tr, t, hrun, hls, hbalance⟩ := Run.of_trace_map next sendTwice (start (twoUsers poor))
    (fun _ t => (t.data.db.wallets.find 10).map fun w => w.balance.val) (some 900) (by decide)
  have hledger : ∀ b id, ¬ LedgerId 11 (twoUsers b).db id := by
    rintro b id ⟨t, ht, -⟩
    exact absurd ht List.not_mem_nil
  have hstranger : ∀ w, (twoUsers poor).db.wallets.find 11 = some w → w.userId ≠ 1 := by
    intro w hw
    cases hw
    decide
  obtain ⟨tr', t', hrun', hls', hanswer, hheard, hwallets⟩ :=
    transfers_hide_balance (s := twoUsers poor) (twoUsers_same poor rich) hstranger
      (by simp [sendTwice, commitBlock, ToReceiver])
      (fun id _ => iff_of_false (hledger poor id) (hledger rich id))
      (by decide) (by decide) hrun hls
  exact ⟨tr, t, tr', t', hrun, hls, hrun', hls', hbalance, hwallets 10 (by decide), hanswer,
    hheard⟩

end MaxOne.TransferPrivacy
