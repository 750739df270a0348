import Keyhole.Store.Command

/-!
# The item requests

A request reads the item, checks access to it, checks each collection it
names, and then writes; each of these is a step of its own, with the database
as it then stands. `null` and an absent `collectionId` both decode to `none`.
-/

namespace Keyhole.Http
open Store

structure ItemRequest where
  collectionID : Option Id
  ciphertext : String
  wrappedItemKey : String
  revision : Int
  deriving DecidableEq, Repr

def ItemRequest.input (req : ItemRequest) : ItemInput where
  collectionID := req.collectionID
  ciphertext := req.ciphertext
  wrappedItemKey := req.wrappedItemKey

def ItemRequest.collectionTarget (req : ItemRequest) : String := req.collectionID.getD ""

inductive ItemCall
  | create (req : ItemRequest)
  | bulk (items : List ItemRequest)
  | update (id : Id) (req : ItemRequest)
  | delete (id : Id)
  deriving DecidableEq, Repr

def ItemCall.requests : ItemCall → List ItemRequest
  | create req | update _ req => [req]
  | bulk items => items
  | delete _ => []

inductive Response
  | item (status : Nat) (item : Item)
  | items (status : Nat) (items : List Item)
  | conflict (message : String) (current : Item)
  | error (status : Nat) (code message : String)
  deriving DecidableEq, Repr

def validationMessage (field message : String) : String :=
  if message = "" then "field \"" ++ field ++ "\" is required" else "field \"" ++ field ++ "\": " ++ message

def writeStoreError : StoreError → Response
  | .notFound => .error 404 "not_found" "not found"
  | .validation field message => .error 400 "bad_request" (validationMessage field message)
  | _ => .error 500 "internal" "could not process the request"

def maxBulkItems : Nat := 1000

/-- Where a request stands: about to read the item, about to check access to the
item it read, or with these targets still to check before it writes. -/
inductive Progress
  | loading
  | loaded (existing : Item)
  | targets (left : List String)
  deriving DecidableEq, Repr

def ItemCall.received : ItemCall → Except Response Progress
  | create req => .ok (.targets [req.collectionTarget])
  | bulk items =>
    if items = [] then .error (.error 400 "bad_request" "items must not be empty")
    else if items.length > maxBulkItems then
      .error (.error 400 "bad_request" "too many items in one request; send them in smaller batches")
    else .ok (.targets (items.map ItemRequest.collectionTarget))
  | update _ _ | delete _ => .ok .loading

def ItemCall.id : ItemCall → Id
  | create _ | bulk _ => ""
  | update id _ | delete id => id

def ItemCall.targetsLeft (call : ItemCall) : List String := call.requests.map ItemRequest.collectionTarget

def isCollectionMember (db : Db) (collectionID userID : Id) : Bool :=
  db.memberships.count (fun m => m.collectionID = collectionID && m.userID = userID) > 0

def checkCollectionTarget (db : Db) (collectionID userID : Id) : Except Response Unit :=
  if collectionID = "" then .ok ()
  else if isCollectionMember db collectionID userID then .ok ()
  else .error (.error 404 "not_found" "no such collection")

def ItemCall.advance (db : Db) (userID : Id) (call : ItemCall) : Progress → Except Response Progress
  | .loading =>
    match itemByID call.id db with
    | .ok existing => .ok (.loaded existing)
    | .error e => .error (writeStoreError e)
  | .loaded existing =>
    if db.canAccessItem userID existing then .ok (.targets call.targetsLeft)
    else .error (.error 404 "not_found" "not found")
  | .targets (target :: left) =>
    match checkCollectionTarget db target userID with
    | .ok () => .ok (.targets left)
    | .error r => .error r
  | .targets [] => .ok (.targets [])

def ItemCall.command (now : Time) (ids : List Id) (userID : Id) : ItemCall → Command
  | create req => .createItem now (ids.headD "") userID req.input
  | bulk items => .createItemsBulk now ids userID (items.map ItemRequest.input)
  | update id req => .updateItem now id req.revision req.input
  | delete id => .deleteItem now id

def ItemCall.reply (now : Time) (ids : List Id) (userID : Id) (db : Db) : ItemCall → Response
  | create req =>
    match (createItem now (ids.headD "") userID req.input db).1 with
    | .ok item => .item 201 item
    | .error e => writeStoreError e
  | bulk items =>
    match (createItemsBulk now ids userID (items.map ItemRequest.input) db).1 with
    | .ok items => .items 201 items
    | .error e => writeStoreError e
  | update id req =>
    match (updateItem now id req.revision req.input db).1 with
    | .ok item => .item 200 item
    | .error (.itemConflict current) => .conflict "this item changed on the server since you last synced" current
    | .error e => writeStoreError e
  | delete id =>
    match (deleteItem now id db).1 with
    | .ok item => .item 200 item
    | .error e => writeStoreError e

def Response.rows : Response → Option (List Item)
  | item _ row => some [row]
  | items _ rows => some rows
  | conflict .. | error .. => none

end Keyhole.Http
