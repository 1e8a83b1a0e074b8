import MaxOne.AuthRuns
import MaxOne.MoneyAmounts
import MaxOne.MoneyRuns

/-!
# Paying by handle

A handle is drawn as a code, scanned or typed, looked up and paid. The money
operations, the authentication service, which gives out the handles, and one
`SendMoneyWizard` with its lookups are one machine: lookups are answered in any
order, or not at all, while other users register, open wallets and move money.

The default wallet of a registration is one of the wallets the money operations
open; `createdAt` is the column the first wallet of a user is found by.
-/
namespace MaxOne.PayByHandle
open Library Library.Runs Library.Interleaving Library.LockedBlocks MaxOne.Schema
  MaxOne.Accounts MaxOne.WalletsMachine MaxOne.MoneyAmounts MaxOne.SanitizeNumber
open Library.LowerCase (toLowerCase)

/-! ## Handles and codes -/

def isLower (c : Char) : Bool := 'a' ≤ c && c ≤ 'z'

/-- `/^[a-z][a-z0-9_]{2,19}$/`, of the two DTOs, the two schemas, the scanner and the wizard. -/
def isHandle (s : String) : Bool :=
  match s.toList with
  | [] => false
  | c :: rest =>
      isLower c && rest.all (fun c => isLower c || c.isDigit || c = '_') && 2 ≤ rest.length &&
        rest.length ≤ 19

def scheme : String := "maxone:"

def encodeQr (handle : String) : String := scheme ++ toLowerCase handle

/-- The handle of a payload, or null for anything else. -/
def parseQr (text : String) : Option String :=
  if scheme.toList.isPrefixOf text.toList then
    let handle := toLowerCase (String.ofList (text.toList.drop scheme.length))
    if isHandle handle then some handle else none
  else none

/-- White space that `trim` cuts off; all of it lies in the first plane. -/
def isSpace (c : Char) : Bool := c.toNat < 0x10000 && Utf16.isSpace c.toNat.toUInt16

def trim (s : String) : String :=
  String.ofList ((s.toList.dropWhile isSpace).reverse.dropWhile isSpace).reverse

/-! ### Handles as texts -/

section Handles
variable {handle : String}

/-- The characters of a handle are digits, lower-case letters and the underscore. -/
theorem handle_range (h : isHandle handle) : ∀ c ∈ handle.toList,
    48 ≤ c.toNat ∧ c.toNat ≤ 57 ∨ c.toNat = 95 ∨ 97 ≤ c.toNat ∧ c.toNat ≤ 122 := by
  have hrange : ∀ c : Char, (isLower c || c.isDigit || c = '_') = true →
      48 ≤ c.toNat ∧ c.toNat ≤ 57 ∨ c.toNat = 95 ∨ 97 ≤ c.toNat ∧ c.toNat ≤ 122 := by
    intro c hc
    rw [Bool.or_eq_true, Bool.or_eq_true, decide_eq_true_eq] at hc
    rcases hc with (hc | hc) | rfl
    · simp only [isLower, Bool.and_eq_true, decide_eq_true_eq, Char.le_def] at hc
      obtain ⟨ha, hz⟩ := hc
      rw [UInt32.le_iff_toNat_le] at ha hz
      exact .inr (.inr ⟨ha, hz⟩)
    · exact .inl (Char.isDigit_iff_toNat.mp hc)
    · exact .inr (.inl rfl)
  intro c hc
  unfold isHandle at h
  split at h
  · next hnil => simp [hnil] at hc
  · next first rest hcons =>
      simp only [Bool.and_eq_true, List.all_eq_true] at h
      obtain ⟨⟨⟨hfirst, hrest⟩, -⟩, -⟩ := h
      rw [hcons, List.mem_cons] at hc
      rcases hc with rfl | hc
      · exact hrange c (by simp [hfirst])
      · exact hrange c (hrest c hc)

theorem handle_chars (h : isHandle handle) : ∀ c ∈ handle.toList, isSpace c = false := by
  have hspace : ∀ n < 123, 48 ≤ n → Utf16.isSpace n.toUInt16 = false := by decide
  intro c hc
  have hrange := handle_range h c hc
  rw [isSpace, hspace c.toNat (by omega) (by omega), Bool.and_false]

/-- A handle is its own lower case. -/
theorem toLowerCase_handle (h : isHandle handle) : toLowerCase handle = handle := by
  refine Library.LowerCase.toLowerCase_plain fun c hc => ?_
  have hrange := handle_range h c hc
  refine ⟨by omega, ?_⟩
  have hnot : ¬ (c.val ≥ 'A'.val ∧ c.val ≤ 'Z'.val) := by
    rintro ⟨hlow, hhigh⟩
    rw [ge_iff_le, UInt32.le_iff_toNat_le] at hlow
    rw [UInt32.le_iff_toNat_le] at hhigh
    change 65 ≤ c.toNat at hlow
    change c.toNat ≤ 90 at hhigh
    omega
  exact dif_neg hnot

end Handles

/-! ## The lookup -/

structure Recipient where
  walletId : Uuid
  currency : String
  recipientName : String
  deriving DecidableEq, Repr

/-- A lookup on its way; `matched` is between the two reads of `findRecipientByHandle`. -/
inductive Lookup where
  | asked (handle : String)
  | matched (handle : String) (user : User)
  | answered (handle : String) (recipient : Option Recipient)
  deriving DecidableEq

def Lookup.handle : Lookup → String
  | asked handle | matched handle _ | answered handle _ => handle

/-- `LookupQueryDto`, and the read of the user. -/
def findByHandle (s : Accounts.Shared) (handle : String) : Lookup :=
  if isHandle handle then
    match s.users.table.rows.find? fun u => u.handle = some (toLowerCase handle) with
    | none => .answered handle none
    | some user => .matched handle user
  else .answered handle none

/-- The first wallet of a user; of several with one `createdAt` the database picks. -/
def firstWallet (createdAt : Uuid → Time) (d : Db) (userId choice : Uuid) : Option Wallet :=
  (d.wallets.find choice).filter fun w =>
    w.userId = userId ∧ ∀ v ∈ d.wallets.rows, v.userId = userId → createdAt w.id ≤ createdAt v.id

def recipientOf (user : User) (w : Wallet) : Recipient :=
  ⟨w.id, w.currency, user.firstName ++ " " ++ user.lastName⟩

/-- `choice` is the wallet the database picks, if there is one. -/
def findWallet (createdAt : Uuid → Time) (d : Db) (handle : String) (user : User) :
    Option Uuid → Option Lookup
  | none =>
      if ∀ v ∈ d.wallets.rows, v.userId ≠ user.id then some (.answered handle none) else none
  | some choice => (firstWallet createdAt d user.id choice).map fun w =>
      .answered handle (some (recipientOf user w))

/-! ## The wizard -/

inductive RecipientState where
  | idle
  | looking
  | found (name handle currency : String)
  | error (message : String)
  deriving DecidableEq, Repr

/-- What the last lookup resolved, with the handle it was for. -/
structure Resolved where
  handle : String
  recipient : Option Recipient
  state : RecipientState

structure TransferInput where
  handle : String
  amount : Utf16.Text
  note : String

inductive Step where
  | details | confirm | done
  deriving DecidableEq

/-- `timer`: a lookup of what is typed is due; `scanned`: the code that filled the field. -/
structure Screen where
  myWalletId : Uuid
  myCurrency : String
  form : TransferInput
  resolved : Resolved
  values : Option TransferInput
  step : Step
  stepUp : Bool
  pending : Bool
  timer : Bool
  scanned : Option String

/-- A transfer as it is posted, with what the confirm step says of it. -/
structure Posted where
  fromWalletId : Uuid
  toWalletId : Uuid
  amount : Library.Binary64.Number
  note : Option String
  handle : String
  name : String
  currency : String
  typedAmount : Utf16.Text
  scanned : Option String

namespace Screen

def typed (s : Screen) : String := toLowerCase (trim s.form.handle)

def current (s : Screen) : Option Resolved :=
  if s.resolved.handle = s.typed then some s.resolved else none

def recipient (s : Screen) : Option Recipient := s.current.bind Resolved.recipient

/-- What the field's dropdown and the card under it show. -/
def lookup (s : Screen) : RecipientState :=
  match s.current with
  | some resolved => resolved.state
  | none => if isHandle s.typed then .looking else .idle

def unresolved : Resolved := ⟨"", none, .idle⟩

def mount (wallet : Wallet) (prefill : String) (scanned : Option String) : Screen :=
  let form := ⟨toLowerCase prefill, [], ""⟩
  { myWalletId := wallet.id
    myCurrency := wallet.currency
    form := form
    resolved := unresolved
    values := none
    step := .details
    stepUp := false
    pending := false
    timer := isHandle (toLowerCase (trim form.handle))
    scanned := scanned }

/-- Another text drops the timer of the one before. -/
def type (s : Screen) (handle : String) : Screen :=
  let t := { s with form := { s.form with handle := handle }, scanned := none }
  { t with timer := if t.typed = s.typed then s.timer else isHandle t.typed }

/-- The end of the lookup's callback; the answer may come at any later time. -/
def resolve (s : Screen) (handle : String) : Option Recipient → Resolved
  | none => ⟨handle, none, .error "No one found with that handle."⟩
  | some r =>
      if r.walletId = s.myWalletId then ⟨handle, none, .error "You can't send to yourself."⟩
      else if r.currency ≠ s.myCurrency then
        ⟨handle, none, .error "Cross-currency sending is coming soon."⟩
      else ⟨handle, some r, .found r.recipientName handle r.currency⟩

/-- `transferSchema`, and `toConfirm`. -/
def toConfirm (s : Screen) : Option Screen :=
  if isHandle s.form.handle ∧ amountSchema s.form.amount ∧ s.recipient.isSome then
    some { s with values := some s.form, step := .confirm }
  else none

def send (s : Screen) : Option Posted :=
  match s.recipient, s.values with
  | some r, some v => some
      { fromWalletId := s.myWalletId
        toWalletId := r.walletId
        amount := parseAmountToMinor v.amount
        note := if v.note = "" then none else some v.note
        handle := toLowerCase v.handle
        name := r.recipientName
        currency := s.myCurrency
        typedAmount := v.amount
        scanned := s.scanned }
  | _, _ => none

/-- `Send again`. -/
def again (s : Screen) : Screen :=
  { s with
    form := ⟨"", [], ""⟩
    resolved := unresolved
    values := none
    step := .details
    timer := false
    scanned := none }

end Screen

/-! ## The machine -/

structure World where
  money : MoneyRuns.Machine
  auth : AuthRuns.Service
  screen : Option Screen
  lookups : List Lookup
  posted : List Posted

inductive Reply where
  | sent | stepUpRequired | refused

inductive Action where
  | money (l : ℕ × Act WalletsService.Input)
  | auth (l : ℕ × AuthService.Input)
  /-- the page of `me`, who has `walletId` as first wallet, with `?handle=` -/
  | visit (me walletId : Uuid) (handle : String)
  | scan (me walletId : Uuid) (text : String)
  | type (handle : String)
  | fill (amount : Utf16.Text) (note : String)
  /-- 400 ms after the last change of what is typed -/
  | elapse
  | findUser (handle : String)
  | findWallet (handle : String) (user : User) (choice : Option Uuid)
  | answer (handle : String) (recipient : Option Recipient)
  /-- no answer, or one of a guard -/
  | fail (l : Lookup)
  | submit
  | send
  | reply (r : Reply)
  | edit
  | again

/-- What the validation pipe lets through to `register`. -/
def admits : AuthService.Input → Bool
  | .request (.register dto) _ => isHandle dto.handle
  | _ => true

section World
variable (env : Env) (createdAt : Uuid → Time)

def World.show (w : World) (s : Screen) : World := { w with screen := some s }

def World.resolve (w : World) (l : Lookup) (recipient : Option Recipient) : Option World :=
  if l ∈ w.lookups then
    w.screen.map fun s =>
      { w with
        screen := some { s with resolved := s.resolve l.handle recipient }
        lookups := w.lookups.erase l }
  else none

/-- The lookup `l` has become `l'`. -/
def World.advance (w : World) (l l' : Lookup) : World :=
  { w with lookups := l' :: w.lookups.erase l }

def World.mounted (w : World) (me walletId : Uuid) (handle : String) (scanned : Option String) :
    Option World :=
  (firstWallet createdAt w.money.data.db me walletId).map fun wallet =>
    { w with screen := some (.mount wallet handle scanned), lookups := [] }

def next : Action → World → Option World
  | .money l, w => (MoneyRuns.next l w.money).map fun money => { w with money := money }
  | .auth l, w =>
      if admits l.2 then (AuthRuns.next env l w.auth).map fun auth => { w with auth := auth }
      else none
  | .visit me walletId handle, w => w.mounted createdAt me walletId handle none
  | .scan me walletId text, w =>
      (parseQr text).bind fun handle => w.mounted createdAt me walletId handle (some text)
  | .type handle, w =>
      (w.screen.filter fun s => s.step = .details).map fun s => w.show (s.type handle)
  | .fill amount note, w =>
      (w.screen.filter fun s => s.step = .details).map fun s =>
        w.show { s with form := ⟨s.form.handle, sanitizeAmount amount, note⟩ }
  | .elapse, w =>
      (w.screen.filter Screen.timer).map fun s =>
        { w.show { s with timer := false } with lookups := .asked s.typed :: w.lookups }
  | .findUser handle, w =>
      if .asked handle ∈ w.lookups then
        some (w.advance (.asked handle) (findByHandle w.auth.data handle))
      else none
  | .findWallet handle user choice, w =>
      if .matched handle user ∈ w.lookups then
        (findWallet createdAt w.money.data.db handle user choice).map
          (w.advance (.matched handle user))
      else none
  | .answer handle recipient, w => w.resolve (.answered handle recipient) recipient
  | .fail l, w => w.resolve l none
  | .submit, w =>
      ((w.screen.filter fun s => s.step = .details).bind fun s => s.toConfirm).map w.show
  | .send, w =>
      (w.screen.filter fun s => s.step = .confirm ∧ s.pending = false).bind fun s =>
        s.send.map fun r =>
          { w.show { s with pending := true } with posted := r :: w.posted }
  | .reply r, w =>
      (w.screen.filter Screen.pending).map fun s =>
        match r with
        | .sent => w.show { s with pending := false, stepUp := false, step := .done }
        | .stepUpRequired => w.show { s with pending := false, stepUp := true }
        | .refused => w.show { s with pending := false }
  | .edit, w =>
      (w.screen.filter fun s => s.step = .confirm ∧ s.pending = false ∧ s.stepUp = false).map
        fun s => w.show { s with step := .details }
  | .again, w => (w.screen.filter fun s => s.step = .done).map fun s => w.show s.again

def start (users : Uuid → Option WalletsService.Account) (s : Accounts.Shared) : World where
  money := MoneyRuns.start ⟨.empty, users, [], []⟩
  auth := AuthRuns.start s
  screen := none
  lookups := []
  posted := []

end World

/-! ## Handles are given out once -/

/-- The columns of a user that no statement rewrites. -/
structure Profile where
  id : Uuid
  handle : Option String
  firstName : String
  lastName : String
  deriving DecidableEq

def profile (u : User) : Profile := ⟨u.id, u.handle, u.firstName, u.lastName⟩

def profiles (s : Accounts.Shared) : List Profile := s.users.table.rows.map profile

section Directory
open AuthService
variable {env : Env} {i : AuthService.Input} {p q : AuthService.Pc} {s s' : Accounts.Shared}

theorem profiles_setUser {id : Uuid} {u : UserUpdate} (h : ∀ v, profile (u.set v) = profile v) :
    profiles (s.setUser id u) = profiles s := by
  have hrows : (s.setUser id u).users.table.rows =
      s.users.table.rows.map fun v => if v.id = id then u.set v else v := rfl
  rw [profiles, hrows, List.map_map]
  refine List.map_congr_left fun v _ => ?_
  simp only [Function.comp_apply]
  split_ifs
  · exact h v
  · rfl

theorem profiles_insert {user : User} {users : UserTable} (h : s.users.insert user = some users) :
    users.table.rows.map profile = profiles s ++ [profile user] := by
  rw [Table.insert_rows (IndexedTable.insert_table h), List.map_append]
  rfl

/-- The DTO of a registration under way. -/
def registration : AuthService.Pc → Option RegisterDto
  | .findByEmail dto | .findByHandle dto | .createUser dto _ => some dto
  | _ => none

/-- A new user has a handle nobody has; else the columns stay. -/
theorem step_profiles (h : AuthService.step env i p s = some (q, s')) :
    profiles s' = profiles s ∨ ∃ d dto role, p = .createUser dto role ∧
      profiles s' = profiles s ++ [profile (newUser d dto role)] ∧
      ∀ v ∈ profiles s, v.handle ≠ some (toLowerCase dto.handle) := by
  cases AuthMachine.step_statement h with
  | registers d dto role users hinsert =>
      refine .inr ⟨d, dto, role, rfl, profiles_insert hinsert, ?_⟩
      have hcreate : createUser d s dto role =
          (.issueTokens (newUser d dto role) none, { s with users := users }) :=
        Option.some.inj h
      unfold createUser at hcreate
      dsimp only at hcreate
      split_ifs at hcreate with hfree
      · cases hcreate
      · intro v hv hhandle
        obtain ⟨u, hu, rfl⟩ := List.mem_map.mp hv
        exact hfree (List.any_eq_true.mpr ⟨u, hu, decide_eq_true hhandle⟩)
  | pends => exact .inl (profiles_setUser fun _ => rfl)
  | enables => exact .inl (profiles_setUser fun _ => rfl)
  | consumes => exact .inl (profiles_setUser fun _ => rfl)
  | disables => exact .inl (profiles_setUser fun _ => rfl)
  | patches d actor id change before user auditLogs hfind haudit =>
      refine .inl ?_
      rw [profiles]
      simp only [AuthMachine.sweep_users]
      exact profiles_setUser fun v => by cases change <;> rfl
  | _ => exact .inl rfl

theorem registration_receive {minted : List Jwt} {now : Time} {r : Request} {dto : RegisterDto}
    (h : registration (receive minted now r) = some dto) : r = .register dto := by
  unfold receive at h
  split at h
  · exact congrArg Request.register (Option.some.inj h)
  all_goals first | cases h | split at h
  all_goals cases h

theorem registration_dispatch {minted : List Jwt} {now : Time} {user : AuthUser}
    {endpoint : Endpoint} : registration (dispatch env minted now user endpoint) = none := by
  unfold dispatch
  split
  all_goals first | rfl | split
  all_goals first | rfl | split
  all_goals first | rfl | split
  all_goals rfl

theorem registration_change (h : AuthMachine.Statement env s i p q s') {dto : RegisterDto}
    (hq : registration q = some dto) :
    registration p = some dto ∨ ∃ now, i = .request (.register dto) now := by
  cases h with
  | receives r now => exact .inr ⟨now, by rw [registration_receive hq]⟩
  | money => exact .inl hq
  | emailFree => exact .inl hq
  | handleFree => exact .inl hq
  | authenticates =>
      rw [registration_dispatch] at hq
      cases hq
  | provesTotp d userId code k =>
      exact absurd hq (AuthMachine.proved_rule (P := (registration · ≠ some dto)) (fun _ => nofun)
        (fun _ _ _ => nofun) (fun _ => nofun) fun _ => nofun)
  | consumes d userId hash remaining k =>
      exact absurd hq (AuthMachine.proved_rule (P := (registration · ≠ some dto)) (fun _ => nofun)
        (fun _ _ _ => nofun) (fun _ => nofun) fun _ => nofun)
  | counts d id userId counter k => cases k <;> cases hq
  | permits d actor id patch =>
      rcases AuthRuns.patchUser_cases env actor id patch with ⟨e, he⟩ | ⟨change, he⟩ <;>
        rw [he] at hq <;> cases hq
  | _ => cases hq

/-- Handles are well formed, and nobody shares one. -/
structure Directory (s : Accounts.Shared) : Prop where
  shaped : ∀ v ∈ profiles s, ∀ h, v.handle = some h → isHandle h
  unique : ∀ v ∈ profiles s, ∀ u ∈ profiles s, v.handle ≠ none → v.handle = u.handle → v = u

/-- Of the service: every registration under way has passed the pipe. -/
structure Registers (t : AuthRuns.Service) : Prop where
  directory : Directory t.data
  waiting : ∀ c dto, registration (t.client c) = some dto → isHandle dto.handle

theorem Directory.insert (hs : Directory s) {v : Profile} {h : String} (hv : v.handle = some h)
    (hshaped : isHandle h) (hfree : ∀ u ∈ profiles s, u.handle ≠ some h)
    (hnew : profiles s' = profiles s ++ [v]) : Directory s' := by
  constructor
  · intro u hu g hg
    rw [hnew, List.mem_append, List.mem_singleton] at hu
    rcases hu with hu | rfl
    · exact hs.shaped u hu g hg
    · rw [hv, Option.some.injEq] at hg
      rwa [← hg]
  · intro a ha b hb hne hab
    rw [hnew, List.mem_append, List.mem_singleton] at ha hb
    rcases ha with ha | rfl
    · rcases hb with hb | rfl
      · exact hs.unique a ha b hb hne hab
      · exact absurd (hab.trans hv) (hfree a ha)
    · rcases hb with hb | rfl
      · exact absurd (hab.symm.trans hv) (hfree b hb)
      · rfl

variable {t t' : AuthRuns.Service} {l : ℕ × AuthService.Input}

theorem Registers.next (ht : Registers t) (hl : admits l.2)
    (hn : AuthRuns.next env l t = some t') :
    Registers t' ∧ ∀ v ∈ profiles t.data, v ∈ profiles t'.data := by
  have hstep := next_self hn
  have hwaiting : ∀ c dto, registration (t'.client c) = some dto → isHandle dto.handle := by
    intro c dto hdto
    by_cases hself : c = l.1
    · subst hself
      rcases registration_change (AuthMachine.step_statement hstep) hdto with hold | ⟨now, hrequest⟩
      · exact ht.waiting _ dto hold
      · rw [hrequest] at hl
        exact hl
    · rw [next_other hn hself] at hdto
      exact ht.waiting c dto hdto
  rcases step_profiles hstep with hsame | ⟨d, dto, role, hclient, hnew, hfree⟩
  · refine ⟨⟨⟨?_, ?_⟩, hwaiting⟩, fun v hv => hsame ▸ hv⟩
    · rw [hsame]
      exact ht.directory.shaped
    · rw [hsame]
      exact ht.directory.unique
  · have hshaped : isHandle dto.handle := ht.waiting l.1 dto (by rw [hclient, registration])
    rw [toLowerCase_handle hshaped] at hfree
    have hhandle : (profile (newUser d dto role)).handle = some dto.handle :=
      congrArg some (toLowerCase_handle hshaped)
    refine ⟨⟨ht.directory.insert hhandle hshaped hfree hnew, hwaiting⟩, fun v hv => ?_⟩
    rw [hnew]
    exact List.mem_append_left _ hv

end Directory

/-! ## Codes -/

section Texts
variable {handle : String}

theorem dropWhile_none {l : List Char} {p : Char → Bool} (h : ∀ c ∈ l, p c = false) :
    l.dropWhile p = l := by
  cases l with
  | nil => rfl
  | cons c rest => rw [List.dropWhile_cons_of_neg (by simp [h c])]

/-- The wizard reads a well-formed handle as it stands in the field. -/
theorem trim_handle (h : isHandle handle) : trim handle = handle := by
  have hchars := handle_chars h
  rw [trim, dropWhile_none hchars, dropWhile_none fun c hc => hchars c (List.mem_reverse.mp hc),
    List.reverse_reverse, String.ofList_toList]

theorem isHandle_of_parseQr {text : String} (h : parseQr text = some handle) :
    isHandle handle := by
  unfold parseQr at h
  dsimp only at h
  split_ifs at h with _ hshaped
  obtain rfl := Option.some.inj h
  exact hshaped

end Texts

/-! ## Whose wallet a recipient is -/

/-- `r` is a wallet, in its currency, of the user with this handle and name. -/
def Names (s : Accounts.Shared) (d : Db) (handle : String) (r : Recipient) : Prop :=
  ∃ v ∈ profiles s, v.handle = some handle ∧
    r.recipientName = v.firstName ++ " " ++ v.lastName ∧
    owner d r.walletId = some ⟨v.id, r.currency⟩

/-- Users keep their columns and wallets their owners. -/
structure Grows (s s' : Accounts.Shared) (d d' : Db) : Prop where
  profiles : ∀ v ∈ profiles s, v ∈ profiles s'
  owner : ∀ {id o}, owner d id = some o → owner d' id = some o

def Lookup.Ok (s : Accounts.Shared) (d : Db) : Lookup → Prop
  | .asked _ => True
  | .matched handle user => isHandle handle ∧ user.handle = some handle ∧ profile user ∈ profiles s
  | .answered handle recipient => ∀ r ∈ recipient, Names s d handle r

/-- In the confirm step the form is out of reach. -/
structure Screen.Ok (s : Accounts.Shared) (d : Db) (screen : Screen) : Prop where
  mine : ∃ me, owner d screen.myWalletId = some ⟨me, screen.myCurrency⟩
  resolved : ∀ r ∈ screen.resolved.recipient, Names s d screen.resolved.handle r ∧
    r.walletId ≠ screen.myWalletId ∧ r.currency = screen.myCurrency
  amount : ∃ raw, screen.form.amount = sanitizeAmount raw
  values : screen.step = .confirm → screen.values = some screen.form ∧
    isHandle screen.form.handle ∧ amountSchema screen.form.amount
  scanned : ∀ text ∈ screen.scanned, parseQr text = some screen.form.handle

structure Posted.Ok (s : Accounts.Shared) (d : Db) (r : Posted) : Prop where
  payee : Names s d r.handle ⟨r.toWalletId, r.currency, r.name⟩
  source : ∃ me, owner d r.fromWalletId = some ⟨me, r.currency⟩
  distinct : r.toWalletId ≠ r.fromWalletId
  amount : ∃ n : ℕ, 0 < n ∧ r.amount = .finite n ∧ (n : ℚ) = 100 * decimalValue r.typedAmount
  scanned : ∀ text ∈ r.scanned, parseQr text = some r.handle

section Growth
variable {s s' : Accounts.Shared} {d d' : Db} {handle : String} {r : Recipient}

theorem Names.mono (hn : Names s d handle r) (h : Grows s s' d d') : Names s' d' handle r := by
  obtain ⟨v, hv, hhandle, hname, howner⟩ := hn
  exact ⟨v, h.profiles v hv, hhandle, hname, h.owner howner⟩

theorem Lookup.Ok.mono {l : Lookup} (hl : l.Ok s d) (h : Grows s s' d d') : l.Ok s' d' := by
  cases l with
  | asked handle => trivial
  | matched handle user => exact ⟨hl.1, hl.2.1, h.profiles _ hl.2.2⟩
  | answered handle recipient => exact fun r hr => (hl r hr).mono h

theorem Screen.Ok.mono {screen : Screen} (hs : screen.Ok s d) (h : Grows s s' d d') :
    screen.Ok s' d' where
  mine := by
    obtain ⟨me, hme⟩ := hs.mine
    exact ⟨me, h.owner hme⟩
  resolved r hr := ⟨(hs.resolved r hr).1.mono h, (hs.resolved r hr).2⟩
  amount := hs.amount
  values := hs.values
  scanned := hs.scanned

theorem Posted.Ok.mono {r : Posted} (hr : r.Ok s d) (h : Grows s s' d d') : r.Ok s' d' where
  payee := hr.payee.mono h
  source := by
    obtain ⟨me, hme⟩ := hr.source
    exact ⟨me, h.owner hme⟩
  distinct := hr.distinct
  amount := hr.amount
  scanned := hr.scanned

end Growth

/-! ## The lookup and the wizard -/

section Steps
variable {env : Env} {s : Accounts.Shared} {d : Db} {screen : Screen} {createdAt : Uuid → Time}
  {handle : String}

theorem findByHandle_ok : (findByHandle s handle).Ok s d := by
  unfold findByHandle
  split_ifs with hshaped
  · split
    · exact fun r hr => absurd hr (Option.not_mem_none r)
    · next user hfind =>
        have hhandle : user.handle = some (toLowerCase handle) := by
          simpa using List.find?_some hfind
        rw [toLowerCase_handle hshaped] at hhandle
        exact ⟨hshaped, hhandle, List.mem_map_of_mem (List.mem_of_find?_eq_some hfind)⟩
  · exact fun r hr => absurd hr (Option.not_mem_none r)

theorem firstWallet_owner {userId choice : Uuid} {w : Wallet}
    (h : firstWallet createdAt d userId choice = some w) :
    owner d w.id = some ⟨userId, w.currency⟩ := by
  obtain ⟨hfind, hfirst⟩ := Option.filter_eq_some_iff.mp h
  obtain ⟨rfl, -⟩ := of_decide_eq_true hfirst
  rw [← Table.find_key hfind] at hfind
  exact owner_of_find hfind

theorem findWallet_ok {user : User} {choice : Option Uuid} {l : Lookup}
    (hm : (Lookup.matched handle user).Ok s d)
    (h : findWallet createdAt d handle user choice = some l) : l.Ok s d := by
  cases choice with
  | none =>
      simp only [findWallet] at h
      split_ifs at h
      obtain rfl := Option.some.inj h
      exact fun r hr => absurd hr (Option.not_mem_none r)
  | some choice =>
      obtain ⟨w, hw, rfl⟩ := Option.map_eq_some_iff.mp h
      intro r hr
      obtain rfl := Option.some.inj hr
      exact ⟨profile user, hm.2.2, hm.2.1, rfl, firstWallet_owner hw⟩

/-- Whatever answer arrives, and however late, its handle is kept with it. -/
theorem Screen.Ok.resolve (hs : screen.Ok s d) {recipient : Option Recipient}
    (hr : ∀ r ∈ recipient, Names s d handle r) :
    Screen.Ok s d { screen with resolved := screen.resolve handle recipient } := by
  refine ⟨hs.mine, fun r hr' => ?_, hs.amount, hs.values, hs.scanned⟩
  simp only at hr'
  cases recipient with
  | none => cases hr'
  | some answer =>
      simp only [Screen.resolve] at hr' ⊢
      split_ifs at hr' ⊢ with hself hcurrency
      · cases hr'
      · cases hr'
      · obtain rfl := Option.some.inj hr'
        exact ⟨hr answer rfl, hself, not_not.mp hcurrency⟩

theorem Screen.recipient_eq {r : Recipient} (h : screen.recipient = some r) :
    screen.resolved.handle = screen.typed ∧ screen.resolved.recipient = some r := by
  obtain ⟨resolved, hcurrent, hr⟩ := Option.bind_eq_some_iff.mp h
  unfold Screen.current at hcurrent
  split_ifs at hcurrent with htyped
  obtain rfl := Option.some.inj hcurrent
  exact ⟨htyped, hr⟩

theorem Screen.Ok.mount {w : Wallet} {me choice : Uuid} {scanned : Option String}
    (hw : firstWallet createdAt d me choice = some w)
    (hscanned : ∀ text ∈ scanned, parseQr text = some (toLowerCase handle)) :
    (Screen.mount w handle scanned).Ok s d where
  mine := ⟨me, firstWallet_owner hw⟩
  resolved r hr := by cases hr
  amount := ⟨[], rfl⟩
  values h := by cases h
  scanned := hscanned

theorem Screen.Ok.type (hs : screen.Ok s d) (hstep : screen.step = .details) :
    (screen.type handle).Ok s d where
  mine := hs.mine
  resolved := hs.resolved
  amount := hs.amount
  values hconfirm := by
    rw [Screen.type, hstep] at hconfirm
    cases hconfirm
  scanned text ht := absurd ht (Option.not_mem_none text)

theorem Screen.Ok.fill (hs : screen.Ok s d) (hstep : screen.step = .details)
    {amount : List UInt16} {note : String} :
    Screen.Ok s d { screen with form := ⟨screen.form.handle, sanitizeAmount amount, note⟩ } where
  mine := hs.mine
  resolved := hs.resolved
  amount := ⟨amount, rfl⟩
  values hconfirm := by
    rw [hstep] at hconfirm
    cases hconfirm
  scanned := hs.scanned

theorem Screen.Ok.again (hs : screen.Ok s d) : screen.again.Ok s d where
  mine := hs.mine
  resolved r hr := absurd hr (Option.not_mem_none r)
  amount := ⟨[], rfl⟩
  values hdetails := by cases hdetails
  scanned text ht := absurd ht (Option.not_mem_none text)

theorem Screen.Ok.toConfirm {t : Screen} (hs : screen.Ok s d)
    (h : screen.toConfirm = some t) : t.Ok s d := by
  unfold Screen.toConfirm at h
  split_ifs at h with hvalid
  obtain rfl := Option.some.inj h
  exact ⟨hs.mine, hs.resolved, hs.amount, fun _ => ⟨rfl, hvalid.1, hvalid.2.1⟩, hs.scanned⟩

/-- What is posted goes to the wallet the last lookup of this very handle has found. -/
theorem Screen.Ok.send {r : Posted} (hs : screen.Ok s d) (hstep : screen.step = .confirm)
    (h : screen.send = some r) : r.Ok s d := by
  obtain ⟨hvalues, hshaped, hschema⟩ := hs.values hstep
  have htyped : screen.typed = screen.form.handle := by
    rw [Screen.typed, trim_handle hshaped, toLowerCase_handle hshaped]
  unfold Screen.send at h
  rw [hvalues] at h
  split at h
  · next recipient v hrecipient hv =>
      obtain rfl := Option.some.inj hv
      obtain rfl := Option.some.inj h
      obtain ⟨hhandle, hresolved⟩ := Screen.recipient_eq hrecipient
      obtain ⟨hnames, hself, hcurrency⟩ := hs.resolved recipient hresolved
      rw [hhandle, htyped] at hnames
      have hlowered := toLowerCase_handle hshaped
      refine ⟨?_, hs.mine, hself, ?_, ?_⟩
      · simp only [hlowered, ← hcurrency]
        exact hnames
      · obtain ⟨raw, hraw⟩ := hs.amount
        simp only
        rw [hraw] at hschema ⊢
        rcases field_cases raw with ⟨hrefused, -⟩ | ⟨n, hn⟩
        · rw [hrefused] at hschema
          cases hschema
        · have hpos : 0 < n := by simpa [hn.schema] using hschema
          exact ⟨n, hpos, by rw [hn.parse, if_pos hpos], hn.value.symm⟩
      · intro text htext
        simp only [hlowered]
        exact hs.scanned text htext
  · cases h

end Steps

/-! ## Every run -/

theorem owner_grows {l : ℕ × Act WalletsService.Input} {m m' : MoneyRuns.Machine}
    (hok : m.Ok program) (h : MoneyRuns.next l m = some m') :
    m'.Ok program ∧ ∀ {id o}, owner m.data.db id = some o → owner m'.data.db id = some o := by
  obtain ⟨hok', hsame | ⟨i, -, hm⟩⟩ := next_refines hok h
  · have hdata : m'.data = m.data := congrArg Pool.data hsame
    exact ⟨hok', fun ho => by rwa [hdata]⟩
  · exact ⟨hok', fun ho => MoneyRuns.moneyStep_owner (next_self hm) ho⟩

structure Inv (w : World) : Prop where
  money : w.money.Ok program
  auth : Registers w.auth
  screen : ∀ s ∈ w.screen, s.Ok w.auth.data w.money.data.db
  lookups : ∀ l ∈ w.lookups, l.Ok w.auth.data w.money.data.db
  posted : ∀ r ∈ w.posted, r.Ok w.auth.data w.money.data.db

section Runs
variable {env : Env} {createdAt : Uuid → Time} {w w' : World}

theorem Inv.grow (h : Inv w) {money : MoneyRuns.Machine} {auth : AuthRuns.Service}
    (hmoney : money.Ok program) (hauth : Registers auth)
    (hgrows : Grows w.auth.data auth.data w.money.data.db money.data.db) :
    Inv { w with money := money, auth := auth } where
  money := hmoney
  auth := hauth
  screen s hs := (h.screen s hs).mono hgrows
  lookups l hl := (h.lookups l hl).mono hgrows
  posted r hr := (h.posted r hr).mono hgrows

theorem Inv.show (h : Inv w) {s : Screen} (hs : s.Ok w.auth.data w.money.data.db) :
    Inv (w.show s) :=
  ⟨h.money, h.auth, fun _ ht => Option.some.inj ht ▸ hs, h.lookups, h.posted⟩

theorem Inv.advance (h : Inv w) {l l' : Lookup}
    (hl : l'.Ok w.auth.data w.money.data.db) : Inv (w.advance l l') where
  money := h.money
  auth := h.auth
  screen := h.screen
  lookups k hk := by
    rcases List.mem_cons.mp hk with rfl | hk
    · exact hl
    · exact h.lookups k (List.mem_of_mem_erase hk)
  posted := h.posted

theorem Inv.resolve (h : Inv w) {l : Lookup} {recipient : Option Recipient}
    (hr : l ∈ w.lookups → ∀ r ∈ recipient, Names w.auth.data w.money.data.db l.handle r)
    (hn : w.resolve l recipient = some w') : Inv w' := by
  unfold World.resolve at hn
  split_ifs at hn with hl
  obtain ⟨s, hs, rfl⟩ := Option.map_eq_some_iff.mp hn
  exact ⟨h.money, h.auth, fun t ht => Option.some.inj ht ▸ (h.screen s hs).resolve (hr hl),
    fun k hk => h.lookups k (List.mem_of_mem_erase hk), h.posted⟩

theorem Inv.mounted (h : Inv w) {me choice : Uuid} {handle : String} {scanned : Option String}
    (hscanned : ∀ text ∈ scanned, parseQr text = some (toLowerCase handle))
    (hn : w.mounted createdAt me choice handle scanned = some w') : Inv w' := by
  obtain ⟨wallet, hwallet, rfl⟩ := Option.map_eq_some_iff.mp hn
  exact ⟨h.money, h.auth, fun t ht => Option.some.inj ht ▸ .mount hwallet hscanned,
    fun k hk => absurd hk List.not_mem_nil, h.posted⟩

theorem Inv.next {a : Action} (h : Inv w) (hn : next env createdAt a w = some w') :
    Inv w' := by
  cases a with
  | money l =>
      obtain ⟨money, hmoney, rfl⟩ := Option.map_eq_some_iff.mp hn
      obtain ⟨hok, howner⟩ := owner_grows h.money hmoney
      exact h.grow hok h.auth ⟨fun v hv => hv, howner⟩
  | auth l =>
      simp only [PayByHandle.next] at hn
      split_ifs at hn with hl
      obtain ⟨auth, hauth, rfl⟩ := Option.map_eq_some_iff.mp hn
      obtain ⟨hregisters, hprofiles⟩ := h.auth.next hl hauth
      exact h.grow h.money hregisters ⟨hprofiles, fun ho => ho⟩
  | visit me walletId handle => exact h.mounted (fun text ht => absurd ht (Option.not_mem_none _)) hn
  | scan me walletId text =>
      obtain ⟨handle, hparse, hmounted⟩ := Option.bind_eq_some_iff.mp hn
      refine h.mounted (fun text' ht => ?_) hmounted
      obtain rfl := Option.some.inj ht
      rw [hparse, toLowerCase_handle (isHandle_of_parseQr hparse)]
  | type handle =>
      obtain ⟨s, hs, rfl⟩ := Option.map_eq_some_iff.mp hn
      obtain ⟨hs, hstep⟩ := Option.filter_eq_some_iff.mp hs
      exact h.show ((h.screen s hs).type (of_decide_eq_true hstep))
  | fill amount note =>
      obtain ⟨s, hs, rfl⟩ := Option.map_eq_some_iff.mp hn
      obtain ⟨hs, hstep⟩ := Option.filter_eq_some_iff.mp hs
      exact h.show ((h.screen s hs).fill (of_decide_eq_true hstep))
  | elapse =>
      obtain ⟨s, hs, rfl⟩ := Option.map_eq_some_iff.mp hn
      have hok := h.screen s (Option.filter_eq_some_iff.mp hs).1
      have hshown : Inv (w.show { s with timer := false }) :=
        h.show ⟨hok.mine, hok.resolved, hok.amount, hok.values, hok.scanned⟩
      refine ⟨hshown.money, hshown.auth, hshown.screen, fun l hl => ?_, hshown.posted⟩
      rcases List.mem_cons.mp hl with rfl | hl
      · trivial
      · exact h.lookups l hl
  | findUser handle =>
      simp only [PayByHandle.next] at hn
      split_ifs at hn
      obtain rfl := Option.some.inj hn
      exact h.advance findByHandle_ok
  | findWallet handle user choice =>
      simp only [PayByHandle.next] at hn
      split_ifs at hn with hl
      obtain ⟨l, hfound, rfl⟩ := Option.map_eq_some_iff.mp hn
      exact h.advance (findWallet_ok (h.lookups _ hl) hfound)
  | answer handle recipient =>
      refine h.resolve (fun hl => ?_) hn
      have hfound : (Lookup.answered handle recipient).Ok w.auth.data w.money.data.db := h.lookups _ hl
      exact hfound
  | fail l => exact h.resolve (fun _ r hr => absurd hr (Option.not_mem_none r)) hn
  | submit =>
      obtain ⟨t, ht, rfl⟩ := Option.map_eq_some_iff.mp hn
      obtain ⟨s, hs, hconfirm⟩ := Option.bind_eq_some_iff.mp ht
      exact h.show ((h.screen s (Option.filter_eq_some_iff.mp hs).1).toConfirm hconfirm)
  | send =>
      obtain ⟨s, hs, hsend⟩ := Option.bind_eq_some_iff.mp hn
      obtain ⟨r, hr, rfl⟩ := Option.map_eq_some_iff.mp hsend
      obtain ⟨hs, hstep⟩ := Option.filter_eq_some_iff.mp hs
      have hok := h.screen s hs
      have hconfirm : s.step = .confirm ∧ s.pending = false := of_decide_eq_true hstep
      have hshown : Inv (w.show { s with pending := true }) :=
        h.show ⟨hok.mine, hok.resolved, hok.amount, hok.values, hok.scanned⟩
      refine ⟨hshown.money, hshown.auth, hshown.screen, hshown.lookups, fun r' hr' => ?_⟩
      rcases List.mem_cons.mp hr' with rfl | hr'
      · exact hok.send hconfirm.1 hr
      · exact h.posted r' hr'
  | reply r =>
      obtain ⟨s, hs, rfl⟩ := Option.map_eq_some_iff.mp hn
      have hok := h.screen s (Option.filter_eq_some_iff.mp hs).1
      cases r with
      | sent => exact h.show ⟨hok.mine, hok.resolved, hok.amount, fun hdone => (by cases hdone), hok.scanned⟩
      | stepUpRequired => exact h.show ⟨hok.mine, hok.resolved, hok.amount, hok.values, hok.scanned⟩
      | refused => exact h.show ⟨hok.mine, hok.resolved, hok.amount, hok.values, hok.scanned⟩
  | edit =>
      obtain ⟨s, hs, rfl⟩ := Option.map_eq_some_iff.mp hn
      have hok := h.screen s (Option.filter_eq_some_iff.mp hs).1
      exact h.show ⟨hok.mine, hok.resolved, hok.amount, fun hdetails => (by cases hdetails), hok.scanned⟩
  | again =>
      obtain ⟨s, hs, rfl⟩ := Option.map_eq_some_iff.mp hn
      exact h.show (h.screen s (Option.filter_eq_some_iff.mp hs).1).again

variable {users : Uuid → Option WalletsService.Account} {s₀ : Accounts.Shared}
  {tr : List (Event Action World)}

theorem run_inv (hs : Directory s₀) (h : Run (next env createdAt) (start users s₀) tr w) :
    Inv w := by
  refine h.invariant Inv ?_ fun _ _ _ hw hn => hw.next hn
  exact
    { money := State.idle_ok _ _
      auth := ⟨⟨hs.shaped, hs.unique⟩, fun c dto hdto => by cases hdto⟩
      screen := fun s hs => absurd hs (Option.not_mem_none s)
      lookups := fun l hl => absurd hl List.not_mem_nil
      posted := fun r hr => absurd hr List.not_mem_nil }

def bobby : AuthService.RegisterDto := ⟨"b", "bobby", "password", "Bob", "By"⟩

/-- The user of this registration. -/
def bob : User := AuthService.newUser (AuthRuns.draw 0 30 "") bobby
  AuthRuns.userRole

/-- Bob registers, opens a wallet and shows his code; it is scanned, looked up and paid. -/
def scanned : List Action :=
  ((5, .request (.register bobby) 0) :: AuthRuns.statements 5 0 30 3).map .auth ++
    (MoneyRuns.openWallet 0 1 "USD" 10 ++ MoneyRuns.openWallet 1 30 "USD" 11).map .money ++
    [.scan 1 10 (encodeQr "bobby"), .elapse, .findUser "bobby",
      .findWallet "bobby" bob (some 11), .answer "bobby" (some ⟨11, "USD", "Bob By"⟩),
      .fill (Utf16.ofString "12.5") "", .submit, .send]

end Runs

end MaxOne.PayByHandle
