import Zway.Client.Records
import Zway.Client.Requests
import Zway.Client.Rows
import Zway.Ubj.Value

/-!
# Posting a message

`Client::postMessage` looks for the history that the message belongs to and creates one if
there is none, makes a request of the message, stores the message and posts the request. It
returns `false` as soon as one of these fails, and leaves what it has stored so far.

The rows of the tables lie in `blob2`. What comes of the calls of other parts is in `Outside`:
which of the calls of the store work, and what the calls of the crypto library return.
-/

namespace Zway.Client

open Ubj Sql

/-! ## The store -/

/-- A row of a virtual table, with the columns that are looked at or written here. -/
inductive PostRow where
  | history (dst time : BitVec 64)
  | contact (id : Option (BitVec 64)) (publicKey : Option Value)
  | message (id src dst history : BitVec 64) (status : MessageStatus) (text : Value)
  | other

def PostRow.isHistory : PostRow → Bool
  | history .. => true
  | _ => false

def PostRow.isMessage : PostRow → Bool
  | message .. => true
  | _ => false

/-- The `time` of the history rows with this `dst`. -/
def PostRow.historyOf (contactId : BitVec 32) : PostRow → Option (BitVec 64)
  | history dst time => if dst = uint32Value contactId then some time else none
  | _ => none

/-- The `publicKey` of the contacts with this `id`. -/
def PostRow.contactOf (contactId : BitVec 32) : PostRow → Option (Option Value)
  | contact id publicKey => if id = some (uint32Value contactId) then some publicKey else none
  | _ => none

structure PostStore where
  /-- `blob2`, with the rowids. -/
  rows : List (BitVec 64 × PostRow)

/-- What comes of the calls of other parts while a message is posted. -/
structure Outside where
  sqlite : Behaviour
  /-- Whether the store answers the queries and makes the insertions. -/
  queryHistories : Bool
  insertHistory : Bool
  queryContacts : Bool
  insertMessage : Bool
  /-- `time(nullptr)`. -/
  time : BitVec 64
  /-- `Crypto::mkId`, for the request and for the resources. -/
  mkId : Nat → UInt32
  /-- `Crypto::mkId` in `Client::postRequest`, for a request whose id is 0. -/
  mkIdAgain : UInt32
  /-- The random key and salt; none if there is no memory, or no random data. -/
  key : Option Bytes
  salt : Option Bytes
  /-- `RSA::encrypt`. -/
  encrypt : Value → Bytes → Option Bytes
  /-- The meta data, written and encrypted; none if either fails. -/
  encryptedMeta : Option Bytes
  /-- Whether `Request::start` makes a sender. -/
  starts : Bool

/-- The id that a request is posted with. -/
def Outside.requestId (o : Outside) : UInt32 := if o.mkId 0 = 0 then o.mkIdAgain else o.mkId 0

namespace PostStore

/-- The first one with the largest time, as `ORDER BY time DESC` puts it. -/
def latest : List (BitVec 32 × BitVec 64) → Option (BitVec 32 × BitVec 64)
  | [] => none
  | row :: rows =>
      match latest rows with
      | some best => if row.2.slt best.2 then some best else some row
      | none => some row

def histories (s : PostStore) : List (BitVec 64 × PostRow) := s.rows.filter (·.2.isHistory)

def messages (s : PostStore) : List (BitVec 64 × PostRow) := s.rows.filter (·.2.isMessage)

variable (o : Outside)

/-- `Store::insert`. -/
def insert (s : PostStore) (works : Bool) (row : PostRow) : BitVec 64 × PostStore :=
  match if works then Rows.newId o.sqlite s.rows else none with
  | some id => (id, ⟨s.rows ++ [(id, row)]⟩)
  | none => (0, s)

/-- The query of `Store::latestHistory`. -/
def findHistory (s : PostStore) (contactId : BitVec 32) : Option (BitVec 32) :=
  if o.queryHistories then (latest (Rows.scan s.rows (PostRow.historyOf contactId))).map (·.1) else none

/-- `Store::createHistory`. -/
def createHistory (s : PostStore) (contactId : BitVec 32) : BitVec 64 × PostStore :=
  s.insert o o.insertHistory (.history (uint32Value contactId) o.time)

/-- `Store::latestHistory`. -/
def latestHistory (s : PostStore) (contactId : BitVec 32) : BitVec 32 × PostStore :=
  match s.findHistory o contactId with
  | some historyId => (historyId, s)
  | none => ((s.createHistory o contactId).1.setWidth 32, (s.createHistory o contactId).2)

/-- The query of a contact, up to its `publicKey`. -/
def findContact (s : PostStore) (contactId : BitVec 32) : Option (Option Value) :=
  if o.queryContacts then ((Rows.scan s.rows (PostRow.contactOf contactId)).head?).map (·.2) else none

end PostStore

/-! ## The request -/

/-- A resource of a message that is to be sent. -/
structure PostResource where
  id : UInt32
  size : UInt32
  parts : UInt32

/-- What `postMessage` looks at in a message. -/
structure Message where
  id : UInt32
  src : BitVec 32
  dst : BitVec 32
  history : BitVec 32
  status : MessageStatus
  text : Bytes
  resources : List PostResource

/-- `m_head` of a `PushRequest`. -/
structure PushHead where
  resources : List (UInt32 × UInt32)
  encryptedMeta : Bytes
  salt : Bytes
  keys : List (BitVec 32 × Bytes)

structure PostedRequest where
  request : Request
  head : PushHead

/-- `DEFAULT_TIMEOUT`. -/
def DEFAULT_TIMEOUT : UInt32 := 20

namespace PostStore

variable (o : Outside)

/-- The loop over the destinations in `PushRequest::init`; none where it returns `false`. -/
def collectKeys (s : PostStore) (key : Bytes) : List (BitVec 32) → Option (List (BitVec 32 × Bytes))
  | [] => some []
  | dst :: dsts =>
      match s.findContact o dst with
      | none => collectKeys s key dsts
      | some none => none
      | some (some publicKey) =>
          match o.encrypt publicKey key with
          | none => none
          | some keyEnc => (collectKeys s key dsts).map (fun keys => (dst, keyEnc) :: keys)

/-- The row of `messages` that `PushRequest::init` inserts. -/
def messageRow (message : Message) : PostRow :=
  .message (uint32Value message.id.toBitVec) (uint32Value message.src) (uint32Value message.dst)
    (uint32Value message.history) message.status (Value.ofString (cstr message.text))

/-- `PushRequest::init`, with the message as it is left. -/
def init (s : PostStore) (message : Message) : Option (PostedRequest × Message) × PostStore :=
  match o.key with
  | none => (none, s)
  | some key =>
      match o.salt with
      | none => (none, s)
      | some salt =>
          match s.collectKeys o key [message.dst] with
          | none => (none, s)
          | some keys =>
              let resources := message.resources.mapIdx (fun i res =>
                if res.id = 0 then { res with id := o.mkId (i + 1) } else res)
              match o.encryptedMeta with
              | none => (none, s)
              | some encryptedMeta =>
                  let message := { message with
                    id := o.mkId 0
                    status := .outgoing
                    resources := resources }
                  let r := s.insert o o.insertMessage (messageRow message)
                  if r.1 = 0 then (none, r.2)
                  else
                    (some
                      ({ request := ⟨.push, o.mkId 0, DEFAULT_TIMEOUT⟩
                         head :=
                          { resources := (resources.filter (fun res => 0 < res.size)).map
                              (fun res => (res.id, res.parts))
                            encryptedMeta := encryptedMeta
                            salt := salt
                            keys := keys } }, message), r.2)

end PostStore

/-! ## The client -/

structure PostClient where
  /-- `m_store`. -/
  store : Option PostStore
  /-- `m_requests`. -/
  requests : List (UInt32 × PostedRequest)
  /-- The ids of the stream senders. -/
  streamSenders : List UInt32
  /-- The messages of the `MessageOutgoing` events. -/
  events : List Message

namespace PostClient

variable (o : Outside)

/-- `Engine::requestPending`. -/
def requestPending (s : PostClient) (type : RequestType) (id : UInt32) : Bool :=
  if id ≠ 0 then
    s.requests.any (fun it => it.2.request.type = type ∧ it.2.request.id = id)
  else s.requests.any (fun it => it.2.request.type = type)

/-- `Engine::postRequest`. -/
def enginePostRequest (s : PostClient) (request : PostedRequest) : Bool × PostClient :=
  if s.requestPending request.request.type request.request.id then (false, s)
  else if o.starts = false then (false, s)
  else if request.request.id = 0 then (false, s)
  else
    (true, { s with
      streamSenders := s.streamSenders ++ [request.request.id]
      requests := OrdMap.insert request.request.id request s.requests })

/-- `Client::postRequest`. -/
def postRequest (s : PostClient) (request : PostedRequest) : Bool × PostClient :=
  if request.request.id = 0 then
    s.enginePostRequest o { request with request := { request.request with id := o.mkIdAgain } }
  else s.enginePostRequest o request

/-- `Client::postMessage`. -/
def postMessage (s : PostClient) (message : Option Message) : Bool × PostClient :=
  match s.store with
  | none => (false, s)
  | some store =>
      match message with
      | none => (false, s)
      | some message =>
          let history := store.latestHistory o message.dst
          let created := history.2.init o { message with history := history.1 }
          let s := { s with store := some created.2 }
          match created.1 with
          | none => (false, s)
          | some (request, message) =>
              let posted := s.postRequest o request
              if posted.1 then (true, { posted.2 with events := posted.2.events ++ [message] })
              else (false, posted.2)

end PostClient

end Zway.Client
