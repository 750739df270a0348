import Keyhole.Client.Account
import Keyhole.Client.Session
import Keyhole.Vault.Sealing

/-!
# Writes in the middle of which the session locks

The calls that seal something under a key of the session, each from one of its
awaits to the next. A call holds the buffer it was given, and the session
wipes it. The server runs the requests of the session, a step of each at a
time, and whatever else it is asked.
-/

namespace Keyhole.Client.Writes
open Sql Store Http Vault

/-! ## What a call does -/

inductive Operation (P : Type)
  | createItem (plaintext : P) (collectionId : Option Id)
  | updateItem (id : Id) (revision : Int) (collectionId : Option Id) (plaintext : P)
  | uploadItems (items : List P) (collectionId : Option Id)
  | changeMasterPassword (input : ChangePasswordInput)
  | regenerateRecoveryCode (input : RegenerateInput)

/-- `plaintext` and `whole` are ghosts: what the entry seals, and whether the
buffer of the key still had it when it was read. -/
structure Entry (P : Type) where
  request : ItemRequest
  plaintext : P
  whole : Bool

inductive Destination (P : Type)
  | create
  | update (id : Id)
  | upload (rest : List P) (chunk : List (Entry P)) (chunkBytes : Nat)

structure Job (P : Type) where
  parentKey : Ref
  collectionId : Option Id
  revision : Int
  destination : Destination P

inductive Change
  | password (input : ChangePasswordInput)
  | recovery (input : RegenerateInput)

def Change.email : Change → String
  | password input => input.email
  | recovery input => input.email

def Change.currentPassword : Change → String
  | password input => input.currentPassword
  | recovery input => input.currentPassword

/-- The body of a request, beside a ghost: what it seals, or the secret that is to open it. -/
inductive Body (P : Type)
  | items (call : ItemCall) (plaintexts : List P)
  | password (newPassword : String) (req : RotatePasswordRequest)
  | recovery (recoveryCode : String) (req : RotateRecoveryRequest)

/-- A request a call waits for, and the upload that goes on after it. -/
structure Pending (P : Type) where
  body : Body P
  whole : Bool
  next : Option (Job P)

inductive Move (P : Type)
  | encrypt (job : Job P) (item : P)
  | post (pending : Pending P)
  | finish

section
variable {P : Type}

def bulk (chunk : List (Entry P)) (next : Option (Job P)) : Pending P where
  body := .items (.bulk (chunk.map (·.request))) (chunk.map (·.plaintext))
  whole := chunk.all (·.whole)
  next := next

def Job.loop (job : Job P) : (rest : List P) → (chunk : List (Entry P)) → (chunkBytes : Nat) → Move P
  | item :: rest, chunk, chunkBytes =>
    .encrypt { job with destination := .upload rest chunk chunkBytes } item
  | [], chunk, _ => if chunk = [] then .finish else .post (bulk chunk none)

def Job.encrypted (job : Job P) (entry : Entry P) : Move P :=
  match job.destination with
  | .create => .post ⟨.items (.create entry.request) [entry.plaintext], entry.whole, none⟩
  | .update id => .post ⟨.items (.update id entry.request) [entry.plaintext], entry.whole, none⟩
  | .upload rest chunk chunkBytes =>
    let bytes := entryBytes entry.request
    if chunk ≠ [] ∧ (chunk.length ≥ MAX_ITEMS_PER_REQUEST ∨ chunkBytes + bytes > BODY_BUDGET) then
      .post (bulk chunk (some { job with destination := .upload rest [entry] bytes }))
    else job.loop rest (chunk ++ [entry]) (chunkBytes + bytes)

def Pending.landed (pending : Pending P) : Move P :=
  match pending.next with
  | some job =>
    match job.destination with
    | .upload rest chunk chunkBytes => job.loop rest chunk chunkBytes
    | .create | .update _ => .finish
  | none => .finish

end

/-! ## A request at the server -/

/-- `received` is before `requireAuth`. -/
inductive Standing
  | received
  | checking (userID : Id) (progress : Progress)
  | verified (userID sessionID : Id)
  | answered (answer : Except Failure Unit)

structure Post (P : Type) where
  ticket : Nat
  token : Option String
  body : Body P
  whole : Bool
  standing : Standing

inductive Write (P : Type)
  | items (rows : List (Item × P))
  | password (newPassword : String) (user : User)
  | recovery (recoveryCode : String) (user : User)
  deriving DecidableEq

section
variable {P : Type}

def refused (r : Response) : Standing := .answered (.error (toApiError r))

/-- The checks of a handler that read nothing but the request and its user. -/
def Body.received (user : User) (session : Store.Session) : Body P → Standing
  | .items call _ =>
    match call.received with
    | .ok progress => .checking user.id progress
    | .error r => refused r
  | .password _ req =>
    if req.authHash = "" then refused (badRequest "authHash is required")
    else if req.params ≠ defaultKDFParamsJSON then refused (unpinned "params")
    else
      match checkCurrentCredential user req.currentAuthHash with
      | .ok () => .verified user.id session.id
      | .error r => refused r
  | .recovery _ req =>
    if req.recoveryAuthHash = "" then refused (requiredField "recoveryAuthHash")
    else if req.recoveryKdfParams ≠ defaultKDFParamsJSON then refused (unpinned "recoveryKdfParams")
    else
      match checkCurrentCredential user req.currentAuthHash with
      | .ok () => .verified user.id session.id
      | .error r => refused r

/-- `requireAuth`, and the checks behind it. -/
def Post.authorize (now : Time) (db : Db) (p : Post P) : Standing :=
  match p.token with
  | none | some "" => refused (unauthorized "authentication required")
  | some token =>
    match requireAuth now token db with
    | none => refused (unauthorized "authentication required")
    | some (user, session) => p.body.received user session

def Post.advance (db : Db) (p : Post P) : Standing :=
  match p.standing, p.body with
  | .checking userID progress, .items call _ =>
    match call.advance db userID progress with
    | .ok progress => .checking userID progress
    | .error r => refused r
  | standing, _ => standing

def Post.command (now : Time) (ids : List Id) (draw : Draw) (p : Post P) : Option Command :=
  match p.standing, p.body with
  | .checking userID (.targets []), .items call _ => some (call.command now ids userID)
  | .verified userID sessionID, .password _ req =>
    some (.rotatePassword now draw.id userID (req.input draw) sessionID)
  | .verified userID _, .recovery _ req => some (.rotateRecovery now draw.id userID (req.input draw))
  | _, _ => none

def Post.answer (now : Time) (ids : List Id) (draw : Draw) (db : Db) (p : Post P) : Except Failure Unit :=
  match p.standing, p.body with
  | .checking userID _, .items call _ =>
    match (call.reply now ids userID db).rows with
    | some _ => .ok ()
    | none => .error (toApiError (call.reply now ids userID db))
  | .verified userID sessionID, .password _ req =>
    (written (rotatePassword now draw.id userID (req.input draw) sessionID db)).1.mapError toApiError
  | .verified userID _, .recovery _ req =>
    (written (rotateRecovery now draw.id userID (req.input draw) db)).1.mapError toApiError
  | _, _ => .error .network

def Post.stores (now : Time) (ids : List Id) (draw : Draw) (db : Db) (p : Post P) : List (Write P) :=
  match p.standing, p.body with
  | .checking userID _, .items call plaintexts =>
    (call.reply now ids userID db).rows.toList.map fun rows => .items (rows.zip plaintexts)
  | .verified userID sessionID, .password newPassword req =>
    let c : Command := .rotatePassword now draw.id userID (req.input draw) sessionID
    (c.mark db).toList.flatMap fun _ => ((c.run db).users.get? userID).toList.map (.password newPassword)
  | .verified userID _, .recovery recoveryCode req =>
    let c : Command := .rotateRecovery now draw.id userID (req.input draw)
    (c.mark db).toList.flatMap fun _ => ((c.run db).users.get? userID).toList.map (.recovery recoveryCode)
  | _, _ => []

end

/-! ## The tab and the server -/

/-- What a call waits for; `resending` is the moment between `replaceTokens` and the second `send`. -/
inductive Stage (P : Type)
  | idle
  | encrypting (job : Job P) (item : P)
  | wrapping (job : Job P) (entry : Entry P)
  | asking (change : Change)
  | hashing (change : Change) (found : PreloginResponse)
  | rotating (change : Change) (current : String) (userKey : Ref)
  | rotated (pending : Pending P)
  | posted (retry : Bool) (ticket : Nat) (pending : Pending P)
  | refreshing (pending : Pending P) (refreshToken : String)
  | renewed (pending : Pending P) (answer : Option SessionTokens)
  | resending (pending : Pending P)
  | ended

/-- `opened` are the collection keys this tab has unsealed, `granted` the tokens the server has given
it, and `committed` is a ghost: what the commits of its requests have stored. -/
structure World (K P : Type) where
  memory : Memory K
  opened : List (Id × Ref)
  calls : Nat → Stage P
  server : Server
  posts : Table (Post.ticket (P := P))
  nextTicket : Nat
  granted : List SessionTokens
  committed : List (Write P)

/-- The first four are the session's and the next five a call's; the rest are the server's. `thrown` is
a request that ends in `e`, whatever the server has made of it. -/
inductive Event (K P : Type)
  | lock
  | unlock (tokens : SessionTokens) (privateKey : K)
  | openCollectionKey (id : Id)
  | setCollectionKeys (next : Keyring)
  | call (i : Nat) (op : Operation P)
  | encrypt (i : Nat) (draw : ItemDraw K)
  | rotate (i : Nat) (draw : CodeDraw K)
  | resume (i : Nat)
  | thrown (i : Nat) (e : Failure)
  | login (now : Time) (id : Id) (tokens : SessionTokens) (deviceLabel : String)
  | refresh (i : Nat) (now : Time) (tokens : SessionTokens)
  | authorize (ticket : Nat) (now : Time)
  | advance (ticket : Nat)
  | write (ticket : Nat) (now : Time) (ids : List Id) (draw : Draw)
  | other (c : Command)

/-- A reset would give the account another key, and is left out. -/
def isOther : Command → Bool
  | .resetUser .. => false
  | _ => true

section
variable {K P : Type}

def start : World K P where
  memory := .empty
  opened := []
  calls _ := .idle
  server := Server.fresh
  posts := ∅
  nextTicket := 0
  granted := []
  committed := []

namespace World

def put (w : World K P) (i : Nat) (stage : Stage P) : World K P :=
  { w with calls := fun j => if j = i then stage else w.calls j }

/-- The access token is read when the request is sent. -/
def post (w : World K P) (i : Nat) (retry : Bool) (pending : Pending P) : World K P :=
  { w.put i (.posted retry w.nextTicket pending) with
    posts := w.posts.upsert {
      ticket := w.nextTicket
      token := w.memory.session.tokens.map SessionTokens.accessToken
      body := pending.body
      whole := pending.whole
      standing := .received }
    nextTicket := w.nextTicket + 1 }

def move (w : World K P) (i : Nat) : Move P → World K P
  | .encrypt job item => w.put i (.encrypting job item)
  | .post pending => w.post i false pending
  | .finish => w.put i .ended

/-- A write goes on under the key the session has for `collectionId`, if it has one. -/
def withParentKey (w : World K P) (i : Nat) (collectionId : Option Id) (f : Ref → Move P) : World K P :=
  match w.memory.session.parentKeyFor collectionId with
  | some (some parentKey) => w.move i (f parentKey)
  | _ => w.put i .ended

def call (w : World K P) (i : Nat) : Operation P → World K P
  | .createItem plaintext collectionId =>
    w.withParentKey i collectionId fun parentKey => .encrypt ⟨parentKey, collectionId, 0, .create⟩ plaintext
  | .updateItem id revision collectionId plaintext =>
    w.withParentKey i collectionId fun parentKey =>
      .encrypt ⟨parentKey, collectionId, revision, .update id⟩ plaintext
  | .uploadItems items collectionId =>
    if items = [] then w.put i .ended
    else w.withParentKey i collectionId fun parentKey =>
      Job.loop ⟨parentKey, collectionId, 0, .upload items [] 0⟩ items [] 0
  | .changeMasterPassword input => w.put i (.asking (.password input))
  | .regenerateRecoveryCode input => w.put i (.asking (.recovery input))

/-- What a request that was refused, or came to nothing, does next. -/
def hear (w : World K P) (i : Nat) (retry : Bool) (pending : Pending P) (e : Failure) : World K P :=
  match retry, e.status, w.memory.session.tokens with
  | false, some 401, some tokens => w.put i (.refreshing pending tokens.refreshToken)
  | _, _, _ => w.put i .ended

end World

variable (C : Crypto K P) (D : Kdf K) (decoys : Decoys) (zero : K) (keys : Sealing.Keys K) (userID : Id)

def Job.entry (job : Job P) (item : P) (draw : ItemDraw K) (m : Memory K) : Entry P where
  request := entryFor C draw (m.read zero job.parentKey) job.collectionId job.revision item
  plaintext := item
  whole := (m.heap.get job.parentKey).isSome

/-- The body of the request, once the user key has been wrapped. -/
def Change.body (change : Change) (draw : CodeDraw K) (current : String) (userKey : K) : Option (Body P) :=
  match change with
  | .password input =>
    (rotateMasterPassword C D draw.wrap input.newPassword userKey defaultKdfParams).map fun rotation =>
      .password input.newPassword (rotatePasswordRequest D current rotation)
  | .recovery _ =>
    let recoveryCode := generateRecoveryCode draw.bytes
    (createRecoveryBlob C D draw.wrap userKey recoveryCode defaultKdfParams).map fun blob =>
      .recovery recoveryCode (rotateRecoveryRequest D current blob)

def currentFrom (found : PreloginResponse) (currentPassword : String) : Option String := do
  let params ← D.parseParams found.params
  let kdfSalt ← D.fromBase64 found.kdfSalt
  let masterKey ← deriveMasterKey D currentPassword kdfSalt params
  return D.toBase64 (deriveAuthHash D masterKey)

namespace World

variable (w : World K P)

/-- The next part of a call that needs no more than what it waits for. -/
def resume (i : Nat) : World K P :=
  match w.calls i with
  | .asking change => w.put i (.hashing change (handlePrelogin decoys change.email w.server.db))
  | .hashing change found =>
    match currentFrom D found change.currentPassword, w.memory.session.getKeys with
    | some current, some (userKey, _) => w.put i (.rotating change current userKey)
    | _, _ => w.put i .ended
  | .wrapping job entry => w.move i (job.encrypted entry)
  | .rotated pending => w.post i false pending
  | .posted retry ticket pending =>
    match (w.posts.get? ticket).map Post.standing with
    | some (.answered (.ok ())) => w.move i pending.landed
    | some (.answered (.error e)) => w.hear i retry pending e
    | _ => w
  | .renewed pending (some tokens) =>
    { w.put i (.resending pending) with memory := w.memory.replaceTokens tokens }
  | .renewed _ none => { w.put i .ended with memory := w.memory.lock }
  | .resending pending => w.post i true pending
  | _ => w

def serve (ticket : Nat) (f : Post P → Standing) : World K P :=
  match w.posts.get? ticket with
  | some p => { w with posts := w.posts.upsert { p with standing := f p } }
  | none => w

def next : Event K P → World K P
  | .lock => { w with memory := w.memory.lock }
  | .unlock tokens privateKey =>
    { w with memory := w.memory.openSession tokens ⟨keys.user userID, privateKey⟩ }
  | .openCollectionKey id =>
    { w with
      memory := { w.memory with heap := w.memory.heap.alloc (keys.collection id) }
      opened := (id, w.memory.heap.top) :: w.opened }
  | .setCollectionKeys next => { w with memory := w.memory.setCollectionKeys next }
  | .call i op => w.call i op
  | .encrypt i draw =>
    match w.calls i with
    | .encrypting job item => w.put i (.wrapping job (job.entry C zero item draw w.memory))
    | _ => w
  | .rotate i draw =>
    match w.calls i with
    | .rotating change current userKey =>
      match change.body C D draw current (w.memory.read zero userKey) with
      | some body => w.put i (.rotated ⟨body, (w.memory.heap.get userKey).isSome, none⟩)
      | none => w.put i .ended
    | _ => w
  | .resume i => w.resume D decoys i
  | .thrown i e =>
    match w.calls i with
    | .posted retry _ pending => w.hear i retry pending e
    | .refreshing pending _ => w.put i (.renewed pending none)
    | .asking _ => w.put i .ended
    | _ => w
  | .login now id tokens deviceLabel =>
    let c : Command := .createSession now id tokens.accessToken tokens.refreshToken userID deviceLabel
    let ok := (Store.createSession now id tokens.accessToken tokens.refreshToken userID deviceLabel
      w.server.db).1.isOk
    { w with server := w.server.after c, granted := if ok then tokens :: w.granted else w.granted }
  | .refresh i now tokens =>
    match w.calls i with
    | .refreshing pending refreshToken =>
      match sessionByRefreshToken now refreshToken w.server.db with
      | .error _ => w.put i (.renewed pending none)
      | .ok session =>
        let c : Command := .rotateSession now session refreshToken tokens.accessToken tokens.refreshToken
        let server := w.server.after c
        if (c.mark w.server.db).isSome && (server.db.users.get? session.userID).any (·.status = .active) then
          { w.put i (.renewed pending (some tokens)) with server, granted := tokens :: w.granted }
        else { w.put i (.renewed pending none) with server }
    | _ => w
  | .authorize ticket now => w.serve ticket (·.authorize now w.server.db)
  | .advance ticket => w.serve ticket (·.advance w.server.db)
  | .write ticket now ids draw =>
    match w.posts.get? ticket with
    | some p =>
      match p.command now ids draw with
      | some c =>
        { w.serve ticket fun p => .answered (p.answer now ids draw w.server.db) with
          server := w.server.after c
          committed := p.stores now ids draw w.server.db ++ w.committed }
      | none => w
    | none => w
  | .other c => { w with server := w.server.after c }

/-- Keys come from the session or were unsealed by this tab; the server draws what it has not drawn before. -/
def enabled : Event K P → Bool
  | .lock | .openCollectionKey _ => true
  | .unlock tokens _ => w.granted.contains tokens
  | .setCollectionKeys next =>
    next.rows.all fun e => w.memory.session.collectionKeys.rows.contains e || w.opened.contains e
  | .call i _ => match w.calls i with | .idle => true | _ => false
  | .encrypt i _ => match w.calls i with | .encrypting .. => true | _ => false
  | .rotate i _ => match w.calls i with | .rotating .. => true | _ => false
  | .resume i =>
    match w.calls i with
    | .asking _ | .hashing .. | .wrapping .. | .rotated _ | .renewed .. | .resending _ => true
    | .posted _ ticket _ =>
      (w.posts.get? ticket).any fun p => match p.standing with | .answered _ => true | _ => false
    | _ => false
  | .thrown i _ => match w.calls i with | .posted .. | .refreshing .. | .asking _ => true | _ => false
  | .login _ id tokens _ => Server.Draws w.server.issued [id, tokens.accessToken, tokens.refreshToken]
  | .refresh i _ tokens =>
    Server.Draws w.server.issued [tokens.accessToken, tokens.refreshToken] &&
      match w.calls i with | .refreshing .. => true | _ => false
  | .authorize ticket _ =>
    (w.posts.get? ticket).any fun p => match p.standing with | .received => true | _ => false
  | .advance ticket =>
    (w.posts.get? ticket).any fun p =>
      match p.standing with | .checking _ (.targets []) => false | .checking .. => true | _ => false
  | .write ticket now ids draw =>
    (w.posts.get? ticket).any fun p => (p.command now ids draw).any fun c => Server.Draws w.server.issued c.draws
  | .other c => isOther c && Server.Draws w.server.issued c.draws

def step : World K P → Event K P → World K P → Prop :=
  Lts.Stepwise (fun w e => enabled w e = true) (next C D decoys zero keys userID)

end World

end

end Keyhole.Client.Writes
