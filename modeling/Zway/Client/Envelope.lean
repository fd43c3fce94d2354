import Zway.Client.Posted
import Zway.Client.Pushed
import Zway.Client.Stored
import Zway.Crypto.Rsa

/-!
# What a message carries

`PushRequest::init` lists the resources of a message in its meta data, encrypts these with a
new key and the key for the contact. `Client::processPush` takes all of it apart again. The
server between them is not here: `DeliveredPush` is what it leaves of a request.

The sender keeps the field `text` of the message, the contact that of the meta data.
-/

namespace Zway.Client

open Ubj Ubj.Store Crypto

/-! ## The sender -/

/-- A resource of a message, with what the meta data say of it. -/
structure MessageResource extends Resource where
  name : Bytes
  hash : Bytes
  /-- `m_parts`. -/
  parts : UInt32

/-- The part of it that posting looks at. -/
def MessageResource.posted (res : MessageResource) : PostResource where
  id := res.id
  size := res.toResource.size
  parts := res.parts

/-- A message, with its meta data. -/
structure FullMessage where
  message : Message
  /-- `meta`. -/
  metaField : Option Value
  resources : List MessageResource
  resources_eq : message.resources = resources.map MessageResource.posted

namespace FullMessage

section

variable (o : Outside) (m : FullMessage)

/-- The resources, each with an id. -/
def identified : List MessageResource :=
  m.resources.mapIdx (fun i res => if res.id = 0 then { res with id := o.mkId (i + 1) } else res)

/-- The resources that have content. -/
def listed : List MessageResource := (m.identified o).filter (fun res => 0 < res.toResource.size)

/-- An item of `metaResources`. -/
def metaResource (res : MessageResource) : Value :=
  .object [(lit "hash", .ofString res.hash), (lit "id", .int32 res.id.toBitVec),
    (lit "name", .ofString res.name), (lit "size", .int32 res.toResource.size.toBitVec)]

/-- The fields of `meta` that the message comes with. -/
def metaFields : Object :=
  match m.metaField with
  | some value => value.toObject
  | none => []

/-- `meta`, before it is written. -/
def metaObject : Object :=
  OrdMap.insert (lit "resources") (.array ((m.listed o).map metaResource)) m.metaFields

/-- `metaBuf`, after it is encrypted. -/
def encryptedMeta (aes_encrypt : Bytes → Bytes → Bytes) (key salt : MemoryBuffer) : Option Bytes :=
  let metaBuf := MemoryBuffer.ofData (Writer.write (.object (m.metaObject o)))
  let aes := (AES.new.setKey (some key)).setCtr (some salt)
  let c := aes.encrypt aes_encrypt AES.noCallback metaBuf.data (UInt32.ofNat metaBuf.size) ()
  if c.1 then some c.2.2.1 else none

end

/-- A message that a document can carry. -/
structure Sendable (o : Outside) (m : FullMessage) : Prop where
  fields : RoundTrip (.object m.metaFields)
  depth_le : depth (.object m.metaFields) ≤ 63
  names : ∀ res ∈ m.resources, NulFree res.name ∧ NulFree res.hash
  length_lt : (Writer.collect (.object (m.metaObject o))).length < 2 ^ 32

end FullMessage

section

variable (gmp : Gmp) (printed : BitVec 64 → Bytes) (nettle : Nettle)
  (aes_encrypt : Bytes → Bytes → Bytes)

/-- What comes of the calls of other parts, with the encryption as it is. -/
def Outside.encrypting (o : Outside) (m : FullMessage) : Outside :=
  { o with
    encrypt := fun publicKey key =>
      (RSA.encrypt gmp printed nettle publicKey.toObject (.ofData key)).map (·.data)
    encryptedMeta := do
      let key ← o.key
      let salt ← o.salt
      m.encryptedMeta o aes_encrypt (.ofData key) (.ofData salt) }

end

/-! ## The contact -/

/-- A request that the server has made of the head of another. -/
structure DeliveredPush (head : PushHead) (dst : BitVec 32) (request : Object) : Prop where
  key : ∃ keyEnc, (dst, keyEnc) ∈ head.keys
    ∧ OrdMap.find? request (lit "key") = some (.buffer keyEnc)
  salt : OrdMap.find? request (lit "salt") = some (.buffer head.salt)
  encryptedMeta : OrdMap.find? request (lit "meta") = some (.buffer head.encryptedMeta)

/-- `Value::buffer`. An empty one counts as none. -/
def valueBuffer : Value → Option MemoryBuffer
  | .int32 i => some (.ofData (leBytes 4 i.toNat))
  | .int64 i => some (.ofData (leBytes 8 i.toNat))
  | .float32 bits => some (.ofData (leBytes 4 bits.toNat))
  | .float64 bits => some (.ofData (leBytes 8 bits.toNat))
  | .string s => some (.ofData s)
  | .buffer data => if data.isEmpty then none else some (.ofData data)
  | _ => none

/-- What `processPush` finds in a request, before it looks into the tables. -/
inductive OpenedPush where
  /-- It returns without a response. -/
  | ignored
  /-- It posts a failure. -/
  | failed
  /-- `RSA::decrypt` gets a null pointer. -/
  | crashed
  | opened (key salt : MemoryBuffer) (fields : Object)

section

variable (env : UbjrEnv) (fuel : Nat) (gmp : Gmp) (printed : BitVec 64 → Bytes) (nettle : Nettle)
  (aes_encrypt : Bytes → Bytes → Bytes)

/-- The meta data of a request. -/
def openMeta (key salt metaBuffer : MemoryBuffer) : OpenedPush :=
  let aes := (AES.new.setKey (some key)).setCtr (some salt)
  let c := aes.decrypt aes_encrypt AES.noCallback metaBuffer.data (UInt32.ofNat metaBuffer.size) ()
  if c.1 then
    match Value.read env fuel .null c.2.2.1 with
    | (true, fields) => .opened key salt fields.toObject
    | (false, _) => .failed
  else .failed

/-- The beginning of `Client::processPush`. -/
def openPush (privateKey request : Object) : OpenedPush :=
  match OrdMap.find? request (lit "key"), OrdMap.find? request (lit "salt"),
      OrdMap.find? request (lit "meta") with
  | some key, some salt, some metaData =>
      match valueBuffer key with
      | none => .crashed
      | some key =>
          match RSA.decrypt gmp printed nettle privateKey key with
          | none => .failed
          | some key =>
              match valueBuffer salt, valueBuffer metaData with
              | some salt, some metaBuffer => openMeta env fuel aes_encrypt key salt metaBuffer
              | _, _ => .failed
  | _, _, _ => .ignored

end

/-- The items of `meta["resources"]` that `processPush` goes through. -/
def listedResources (fields : Object) : List Value :=
  if (field fields (lit "resources")).numItems ≠ 0 then (field fields (lit "resources")).toArray else []

/-- The push that the tables are told of. -/
def Push.ofMeta (printed : BitVec 64 → Bytes) (requestId : UInt32) {key salt : MemoryBuffer}
    (hkey : key.size = 32) (hsalt : salt.size = 16) (fields : Object) : Push where
  requestId := requestId
  key := key
  salt := salt
  resources := (listedResources fields).map
    (fun it => ⟨(field it.toObject (lit "id")).toInt⟩)
  text := (field fields (lit "text")).toStr printed
  key_size := hkey
  salt_size := hsalt

/-! ## Meta data -/

theorem roundTrip_ofString {s : Bytes} (h : NulFree s) : RoundTrip (Value.ofString s) := by
  unfold Value.ofString
  cases s with
  | nil => exact .null
  | cons b s => exact .string ⟨List.cons_ne_nil b s, h⟩

theorem depth_ofString (s : Bytes) : depth (Value.ofString s) = 0 := by
  unfold Value.ofString
  split
  · rfl
  · rfl

namespace FullMessage

variable {o : Outside} {m : FullMessage}

theorem carried_names : ∀ key ∈ [lit "hash", lit "id", lit "name", lit "size"], Carried key := by
  unfold Carried
  decide

theorem carried_resources : Carried (lit "resources") := by
  unfold Carried
  decide

theorem roundTrip_metaResource {res : MessageResource} (hname : NulFree res.name)
    (hhash : NulFree res.hash) : RoundTrip (metaResource res) := by
  refine .object (List.pairwise_map.mp
    (by decide : [lit "hash", lit "id", lit "name", lit "size"].Pairwise (· < ·)))
    (roundTripFields_of_forall fun f hf => ?_)
  rcases List.mem_cons.mp hf with rfl | hf
  · exact ⟨carried_names _ (.head _), roundTrip_ofString hhash⟩
  rcases List.mem_cons.mp hf with rfl | hf
  · exact ⟨carried_names _ (.tail _ (.head _)), .int32 _⟩
  rcases List.mem_cons.mp hf with rfl | hf
  · exact ⟨carried_names _ (.tail _ (.tail _ (.head _))), roundTrip_ofString hname⟩
  · obtain rfl := List.mem_singleton.mp hf
    exact ⟨carried_names _ (.tail _ (.tail _ (.tail _ (.head _)))), .int32 _⟩

theorem depth_metaResource (res : MessageResource) : depth (metaResource res) = 1 := by
  simp [metaResource, depth, depthFields, depth_ofString]

/-- What has been given an id is what it was before. -/
theorem mem_identified {res : MessageResource} (h : res ∈ m.identified o) :
    ∃ res' ∈ m.resources, res.name = res'.name ∧ res.hash = res'.hash := by
  obtain ⟨i, hi, rfl⟩ := List.mem_mapIdx.mp h
  refine ⟨_, List.getElem_mem hi, ?_⟩
  split
  · exact ⟨rfl, rfl⟩
  · exact ⟨rfl, rfl⟩

theorem roundTripItems_of_forall : ∀ {vs : List Value}, (∀ v ∈ vs, RoundTrip v) → RoundTripItems vs
  | [], _ => .nil
  | v :: _, h => .cons (h v (List.mem_cons_self ..))
      (roundTripItems_of_forall fun w hw => h w (List.mem_cons_of_mem _ hw))

theorem depthItems_le {n : Nat} : ∀ {vs : List Value}, (∀ v ∈ vs, depth v ≤ n) → depthItems vs ≤ n
  | [], _ => Nat.zero_le n
  | v :: _, h => Nat.max_le.mpr ⟨h v (List.mem_cons_self ..),
      depthItems_le fun w hw => h w (List.mem_cons_of_mem _ hw)⟩

/-- **The meta data are a document.** -/
theorem Sendable.roundTrip (h : m.Sendable o) :
    RoundTrip (.object (m.metaObject o)) ∧ depth (.object (m.metaObject o)) ≤ 63 := by
  have hitems : ∀ v ∈ (m.listed o).map metaResource, RoundTrip v ∧ depth v ≤ 1 := by
    intro v hv
    obtain ⟨res, hres, rfl⟩ := List.mem_map.mp hv
    obtain ⟨res', hres', hname, hhash⟩ := mem_identified (List.mem_filter.mp hres).1
    obtain ⟨hn, hh⟩ := h.names res' hres'
    exact ⟨roundTrip_metaResource (hname ▸ hn) (hhash ▸ hh), Nat.le_of_eq (depth_metaResource res)⟩
  have hdepth := h.depth_le
  rw [depth] at hdepth
  cases h.fields with
  | object hsorted hfields =>
    constructor
    · refine .object (hsorted.insert _ _) (roundTripFields_of_forall fun f hf => ?_)
      rcases OrdMap.mem_insert hf with rfl | hf
      · exact ⟨carried_resources, .array (roundTripItems_of_forall fun v hv => (hitems v hv).1)⟩
      · exact mem_roundTripFields hfields f hf
    · rw [depth]
      refine Nat.succ_le_succ (depthFields_le.mpr fun f hf => ?_)
      rcases OrdMap.mem_insert hf with rfl | hf
      · show depthItems _ + 1 ≤ 62
        have hle := depthItems_le fun v hv => (hitems v hv).2
        omega
      · exact depthFields_le.mp (Nat.le_of_succ_le_succ hdepth) f hf

theorem length_le_encode {close : UInt8} {count : Nat} {content : Bytes}
    (h : count = 0 → content = []) : content.length ≤ (encodeBody close count content).length := by
  unfold encodeBody
  split
  · rename_i hzero
    rw [h hzero]
    exact Nat.zero_le _
  · rw [List.length_append]
    exact Nat.le_add_left ..

theorem encode_le_encodeFields : ∀ {fs : Object}, ∀ f ∈ fs,
    (encode f.2).length ≤ (encodeFields fs).length
  | (k, v) :: fs, f, hf => by
      rw [encodeFields, List.length_append, List.length_append]
      rcases List.mem_cons.mp hf with rfl | hf
      · show (encode v).length ≤ _
        omega
      · have hle := encode_le_encodeFields f hf
        omega

/-- A document has no more items than bytes. -/
theorem Sendable.listed_lt (h : m.Sendable o) : (m.listed o).length < 2 ^ 32 := by
  obtain ⟨hround, hdepth⟩ := h.roundTrip
  obtain ⟨-, hshort⟩ := write_eq_encode hround rfl hdepth h.length_lt
  generalize hitems : (m.listed o).map metaResource = items
  have hcount : (m.listed o).length = items.length := by rw [← hitems, List.length_map]
  have hmem : (lit "resources", Value.array items) ∈ m.metaObject o := by
    rw [← hitems]
    exact OrdMap.mem_of_find? (OrdMap.find?_insert_self ..)
  have hfields : (0x5B :: encodeBody 0x5D items.length (encodeItems items)).length
      ≤ (encodeFields (m.metaObject o)).length := encode_le_encodeFields _ hmem
  have hobject := @length_le_encode 0x7D (m.metaObject o).length (encodeFields (m.metaObject o))
    (fun hzero => by rw [List.length_eq_zero_iff.mp hzero]; rfl)
  have harray := @length_le_encode 0x5D items.length (encodeItems items)
    (fun hzero => by rw [List.length_eq_zero_iff.mp hzero]; rfl)
  have hle := length_le_encodeItems items
  rw [List.length_cons] at hfields
  rw [encode, List.length_cons] at hshort
  rw [hcount]
  omega

/-- **What the contact lists** is what the sender has listed. -/
theorem listedResources_metaObject (hlength : (m.listed o).length < 2 ^ 32) :
    listedResources (m.metaObject o) = (m.listed o).map metaResource := by
  have hfield : field (m.metaObject o) (lit "resources") = .array ((m.listed o).map metaResource) := by
    unfold field metaObject
    rw [OrdMap.find?_insert_self]
    rfl
  unfold listedResources
  rw [hfield]
  by_cases hempty : m.listed o = []
  · rw [hempty]
    rfl
  · refine if_pos fun hzero => ?_
    have hnat : (UInt32.ofNat ((m.listed o).map metaResource).length).toNat = 0 :=
      congrArg UInt32.toNat hzero
    rw [List.length_map, UInt32.toNat_ofNat_of_lt' hlength] at hnat
    exact hempty (List.length_eq_zero_iff.mp hnat)

/-- The other fields are those of the message. -/
theorem field_metaObject {key : Bytes} (h : key ≠ lit "resources") :
    field (m.metaObject o) key = field m.metaFields key := by
  unfold field metaObject
  rw [OrdMap.find?_insert_of_ne _ _ h]

end FullMessage

theorem valueBuffer_buffer {data : Bytes} (h : data ≠ []) :
    valueBuffer (.buffer data) = some (.ofData data) :=
  if_neg (fun hempty => h (List.isEmpty_iff.mp hempty))

theorem ofData_self (b : MemoryBuffer) : MemoryBuffer.ofData b.data = b :=
  MemoryBuffer.ext (MemoryBuffer.ofData_data b.size_lt)

section

variable {aes_encrypt : Bytes → Bytes → Bytes} {o : Outside} {m : FullMessage}

/-- **The meta data are opened** as they were before they were written and encrypted. -/
theorem openMeta_encryptedMeta (h : m.Sendable o) (key : MemoryBuffer) {salt : MemoryBuffer}
    (hsalt : salt.size = 16) :
    ∃ encryptedMeta, m.encryptedMeta o aes_encrypt key salt = some encryptedMeta
      ∧ encryptedMeta ≠ []
      ∧ ∀ (env : UbjrEnv) (fuel : Nat), fuelOf (.object (m.metaObject o)) ≤ fuel →
        openMeta env fuel aes_encrypt key salt (.ofData encryptedMeta)
          = .opened key salt (m.metaObject o) := by
  obtain ⟨hround, hdepth⟩ := h.roundTrip
  obtain ⟨hwrite, hshort⟩ := write_eq_encode hround rfl hdepth h.length_lt
  have hread := fun env fuel hf => @read_write _ hround rfl hdepth h.length_lt env .null fuel hf
  have hpos := encode_length_pos (.object (m.metaObject o))
  rw [← hwrite] at hpos hshort
  unfold FullMessage.encryptedMeta
  generalize Writer.write (.object (m.metaObject o)) = text at hpos hshort hread ⊢
  generalize haes : (AES.new.setKey (some key)).setCtr (some salt) = aes
  have hctr : aes.ctr.length = 16 := by
    rw [← haes]
    show (salt.data.take 16).length = 16
    rw [List.length_take, show salt.data.length = 16 from hsalt]
    rfl
  -- one call of the loop over a whole text
  have hcrypt : ∀ src : Bytes, src.length < 2 ^ 32 →
      aes.encrypt aes_encrypt AES.noCallback src (UInt32.ofNat src.length) ()
        = (true, (aes.ctr_crypt aes_encrypt src).1, (aes.ctr_crypt aes_encrypt src).2, ()) := by
    intro src hsrc
    have hsize : (UInt32.ofNat src.length).toNat = src.length := UInt32.toNat_ofNat_of_lt' hsrc
    rw [AES.encrypt_noCallback aes_encrypt (Nat.le_of_eq hsize) hctr, hsize, List.take_length]
  have hlen : (aes.ctr_crypt aes_encrypt text).2.length = text.length := Ctr.crypt_length ..
  refine ⟨(aes.ctr_crypt aes_encrypt text).2, ?_, ?_, fun env fuel hf => ?_⟩
  · dsimp only [MemoryBuffer.size]
    rw [MemoryBuffer.ofData_data hshort, hcrypt text hshort, if_pos rfl]
  · exact List.length_pos_iff.mp (by rw [hlen]; exact hpos)
  · have hshort' : (aes.ctr_crypt aes_encrypt text).2.length < 2 ^ 32 := by rw [hlen]; exact hshort
    have hback : aes.decrypt aes_encrypt AES.noCallback (aes.ctr_crypt aes_encrypt text).2
        (UInt32.ofNat (aes.ctr_crypt aes_encrypt text).2.length) ()
        = (true, (aes.ctr_crypt aes_encrypt text).1, text, ()) := by
      have hcall := hcrypt _ hshort'
      rw [AES.ctr_crypt_ctr_crypt] at hcall
      exact hcall
    unfold openMeta
    rw [haes]
    dsimp only [MemoryBuffer.size]
    rw [MemoryBuffer.ofData_data hshort', hback, if_pos rfl]
    unfold Value.read
    rw [hread env fuel hf]
    rfl

end

/-! ## Posting -/

/-- What a request is made of. -/
theorem PostStore.init_head {o : Outside} {s s' : PostStore} {message sent : Message}
    {request : PostedRequest} (h : s.init o message = (some (request, sent), s')) :
    request.request = ⟨.push, o.mkId 0, DEFAULT_TIMEOUT⟩
      ∧ o.salt = some request.head.salt ∧ o.encryptedMeta = some request.head.encryptedMeta
      ∧ ∃ key, o.key = some key ∧ s.collectKeys o key [message.dst] = some request.head.keys := by
  unfold init at h
  split at h
  · cases h
  · rename_i key hkey
    split at h
    · cases h
    · rename_i salt hsalt
      split at h
      · cases h
      · rename_i keys hkeys
        dsimp only at h
        split at h
        · cases h
        · rename_i encryptedMeta hmeta
          split at h
          · cases h
          · obtain ⟨hrequest, -⟩ := Prod.mk.inj (Option.some.inj (Prod.mk.inj h).1)
            rw [← hrequest]
            exact ⟨rfl, hsalt, hmeta, key, hkey, hkeys⟩

/-- **A message that has been posted** is pending as the request that was made of it. -/
theorem PostClient.postMessage_head {o : Outside} {s : PostClient} {store : PostStore}
    (hstore : s.store = some store) {message : Message}
    (h : (s.postMessage o (some message)).1 = true) :
    ∃ request, OrdMap.find? (s.postMessage o (some message)).2.requests o.requestId = some request
      ∧ o.salt = some request.head.salt ∧ o.encryptedMeta = some request.head.encryptedMeta
      ∧ ∃ key, o.key = some key
        ∧ (store.latestHistory o message.dst).2.collectKeys o key [message.dst]
          = some request.head.keys := by
  unfold postMessage at h ⊢
  rw [hstore] at h ⊢
  dsimp only at h ⊢
  generalize hinit : (store.latestHistory o message.dst).2.init o
    { message with history := (store.latestHistory o message.dst).1 } = created at h ⊢
  obtain ⟨made, store'⟩ := created
  cases made with
  | none => cases h
  | some made =>
    obtain ⟨request, sent⟩ := made
    obtain ⟨hrequest, hsalt, hmeta, hkeys⟩ := PostStore.init_head hinit
    dsimp only at h ⊢
    rcases postRequest_cases o { s with store := some store' } hrequest with
      ⟨-, hposted, -, posted, hhead, hfind⟩ | ⟨-, heq⟩
    · rw [if_pos hposted]
      rw [← hhead] at hsalt hmeta hkeys
      exact ⟨posted, hfind, hsalt, hmeta, hkeys⟩
    · rw [heq, if_neg Bool.false_ne_true] at h
      cases h

/-! ## What arrives -/

/-- The request of a message, with its key and salt. -/
def FullMessage.request (o : Outside) (m : FullMessage) (key : MemoryBuffer) {salt : MemoryBuffer}
    (hsalt : salt.size = 16) : PushRequest where
  resources := (m.identified o).map (·.toResource)
  key := key
  salt := salt
  salt_size := hsalt

section

variable (aes_encrypt : Bytes → Bytes → Bytes)

/-- The stream of a resource that the request sends is one that the receiver of the push takes, and
leaves the content in its buffer. -/
def StreamArrives (request : PushRequest) (p : Push) (id : UInt32) : Prop :=
  ∀ (res : Resource) (content : Content), request.resourceById id = some res →
    res.data = some content.data →
    ∃ sender r, ResourceSender.create (some res) (some request.key)
        (resourceSalt (some request.salt) id) = some sender
      ∧ request.sender res id = some (sender.withSub (.resource sender.sub))
      ∧ (sender.sendAll (ResourceSender.virtuals aes_encrypt) sender.parts.toNat).1
        = p.packets aes_encrypt id content
      ∧ p.received aes_encrypt id content = some r
      ∧ r.status = .completed ∧ r.buffer.data.take content.data.size = content.data.data

/-- **A message has arrived**: the contact knows of the resources with content what the sender knows
of them, has the text of the meta data, and gets the contents with the key and the salt. -/
structure Arrives (o : Outside) (m : FullMessage) (request : PushRequest) (p : Push)
    (fields : Object) : Prop where
  ids : p.resources = (m.listed o).map (·.id)
  infos : listedResources fields = (m.listed o).map FullMessage.metaResource
  text : field fields (lit "text") = field m.metaFields (lit "text")
  streams : ∀ id, StreamArrives aes_encrypt request p id

variable {aes_encrypt}

theorem streamArrives {request : PushRequest} {p : Push} (hkey : p.key = request.key)
    (hsalt : p.salt = request.salt) (id : UInt32) : StreamArrives aes_encrypt request p id := by
  intro res content hres hdata
  obtain ⟨r, hreceived, hstatus, -, -, htake⟩ := @Push.received_eq aes_encrypt p id content
  obtain ⟨resId, data⟩ := res
  obtain rfl : resId = id := Pushing.resourceById_id hres
  change data = some content.data at hdata
  subst hdata
  obtain ⟨_, hmade, -⟩ := @Pushing.sender_eq request ⟨resId, some content.data⟩ resId
  obtain ⟨sender, hcreate, -⟩ := Option.map_eq_some_iff.mp hmade
  refine ⟨sender, r, hcreate, ?_, ?_, hreceived, hstatus, htake⟩
  · unfold PushRequest.sender
    rw [hcreate]
    rfl
  · unfold Push.packets
    rw [hkey, hsalt, hcreate]

end

section

variable {gmp : Gmp} {printed : BitVec 64 → Bytes} {nettle : Nettle}
  {aes_encrypt : Bytes → Bytes → Bytes} {o : Outside} {m : FullMessage} {key salt : MemoryBuffer}
  {publicKey : Value} {privateKey : Object}

/-- **What a contact opens** is what was put in: key, salt and meta data. -/
theorem openPush_delivered (hsalt : salt.size = 16) (hkey : key.size ≤ 2048) (hsend : m.Sendable o)
    (hpair : nettle.Pair (ubjToPublicKey gmp printed publicKey.toObject)
      (ubjToPrivateKey gmp printed privateKey)) {head : PushHead} {dst : BitVec 32} {keyEnc : Bytes}
    (hkeys : head.keys = [(dst, keyEnc)])
    (hencrypt : (RSA.encrypt gmp printed nettle publicKey.toObject key).map (·.data) = some keyEnc)
    (hhead : head.salt = salt.data)
    (hmeta : m.encryptedMeta o aes_encrypt key salt = some head.encryptedMeta) (env : UbjrEnv)
    {fuel : Nat} (hf : fuelOf (.object (m.metaObject o)) ≤ fuel) {request : Object}
    (hrequest : DeliveredPush head dst request) :
    openPush env fuel gmp printed nettle aes_encrypt privateKey request
      = .opened key salt (m.metaObject o) := by
  obtain ⟨keyEnc', hmem, hfindKey⟩ := hrequest.key
  rw [hkeys] at hmem
  obtain rfl : keyEnc' = keyEnc := (Prod.mk.inj (List.mem_singleton.mp hmem)).2
  obtain ⟨res, hres, rfl⟩ := Option.map_eq_some_iff.mp hencrypt
  obtain ⟨z, -, hdata⟩ := RSA.encrypt_eq hres
  obtain ⟨encryptedMeta, hmeta', hne, hopen⟩ :=
    @openMeta_encryptedMeta aes_encrypt o m hsend key salt hsalt
  obtain rfl := Option.some.inj (hmeta.symm.trans hmeta')
  have hresBuffer : valueBuffer (.buffer res.data) = some res := by
    rw [valueBuffer_buffer, ofData_self]
    rw [hdata]
    exact List.append_ne_nil_of_right_ne_nil _ (List.cons_ne_nil 0 [])
  have hsaltBuffer : valueBuffer (.buffer salt.data) = some salt := by
    rw [valueBuffer_buffer, ofData_self]
    exact List.length_pos_iff.mp (Nat.lt_of_lt_of_eq (by decide) hsalt.symm)
  unfold openPush
  rw [hfindKey, hrequest.salt, hrequest.encryptedMeta, hhead]
  dsimp only
  rw [hresBuffer]
  dsimp only
  rw [RSA.decrypt_encrypt hpair hkey hres]
  dsimp only
  rw [hsaltBuffer, valueBuffer_buffer hne]
  exact hopen env fuel hf

/-- **What has been posted arrives**, at a contact that has the private key for the public one in
the store. -/
theorem posted_arrives (hkey : o.key = some key.data) (hkeySize : key.size = 32)
    (hsalt : o.salt = some salt.data) (hsaltSize : salt.size = 16) (hsend : m.Sendable o)
    (hpair : nettle.Pair (ubjToPublicKey gmp printed publicKey.toObject)
      (ubjToPrivateKey gmp printed privateKey)) {s : PostClient} {store : PostStore}
    (hstore : s.store = some store)
    (hcontact : store.findContact o m.message.dst = some (some publicKey))
    (hposted : (s.postMessage (o.encrypting gmp printed nettle aes_encrypt m) (some m.message)).1
      = true) :
    ∃ posted, OrdMap.find?
        (s.postMessage (o.encrypting gmp printed nettle aes_encrypt m) (some m.message)).2.requests
          o.requestId = some posted
      ∧ (∃ keyEnc, (m.message.dst, keyEnc) ∈ posted.head.keys)
      ∧ ∀ (env : UbjrEnv) (fuel : Nat) (request : Object),
        fuelOf (.object (m.metaObject o)) ≤ fuel → DeliveredPush posted.head m.message.dst request →
        ∃ fields, openPush env fuel gmp printed nettle aes_encrypt privateKey request
            = .opened key salt fields
          ∧ Arrives aes_encrypt o m (m.request o key hsaltSize)
            (.ofMeta printed o.requestId hkeySize hsaltSize fields) fields := by
  obtain ⟨posted, hfind, hheadSalt, hheadMeta, key', hkey', hkeys⟩ :=
    PostClient.postMessage_head hstore hposted
  obtain rfl : key' = key.data := Option.some.inj (hkey'.symm.trans hkey)
  have hsaltEq : posted.head.salt = salt.data := Option.some.inj (hheadSalt.symm.trans hsalt)
  have hmeta : m.encryptedMeta o aes_encrypt key salt = some posted.head.encryptedMeta := by
    rw [← hheadMeta]
    unfold Outside.encrypting
    dsimp only
    rw [hkey, hsalt, Option.bind_eq_bind, Option.bind_some, Option.bind_some, ofData_self, ofData_self]
  -- the contact is there, so there is a key for it
  obtain ⟨keyEnc, hencrypt, hone⟩ : ∃ keyEnc,
      (RSA.encrypt gmp printed nettle publicKey.toObject key).map (·.data) = some keyEnc
        ∧ posted.head.keys = [(m.message.dst, keyEnc)] := by
    have hfound : (store.latestHistory (o.encrypting gmp printed nettle aes_encrypt m)
        m.message.dst).2.findContact (o.encrypting gmp printed nettle aes_encrypt m) m.message.dst
          = some (some publicKey) :=
      (store.findContact_latestHistory _ _).trans hcontact
    rcases PostStore.collectKeys_cases (store.latestHistory
        (o.encrypting gmp printed nettle aes_encrypt m) m.message.dst).2 key.data m.message.dst with
      ⟨hnone, -⟩ | ⟨pk, keyEnc, hpk, hencrypt, heq⟩ | ⟨_, -, -, heq⟩
    · cases hnone.symm.trans hfound
    · obtain rfl := Option.some.inj (Option.some.inj (hpk.symm.trans hfound))
      change (RSA.encrypt gmp printed nettle _ (.ofData key.data)).map (·.data) = some keyEnc at hencrypt
      rw [ofData_self] at hencrypt
      exact ⟨keyEnc, hencrypt, Option.some.inj (hkeys.symm.trans heq)⟩
    · cases hkeys.symm.trans heq
  refine ⟨posted, hfind, ⟨keyEnc, hone ▸ List.mem_singleton.mpr rfl⟩,
    fun env fuel request hf hrequest => ⟨m.metaObject o, ?_, ?_⟩⟩
  · exact openPush_delivered hsaltSize (by rw [hkeySize]; decide) hsend hpair hone hencrypt hsaltEq
      hmeta env hf hrequest
  · have hlisted := FullMessage.listedResources_metaObject hsend.listed_lt
    refine ⟨?_, hlisted, FullMessage.field_metaObject (by decide), fun id =>
      streamArrives rfl rfl id⟩
    show (listedResources (m.metaObject o)).map _ = _
    rw [hlisted, List.map_map]
    rfl

end

/-! ## A message to a contact -/

namespace FullMessage

def contactKey : RsaPublicKey where
  size := 44
  n := 0xb814801de898689f40b0be26b2ded876e2f765f244e0ae22e9e34c4af7939f2a6c999bb821f68a91c1aa5125
  e := 0x10001

def ownKey : RsaPrivateKey where
  size := 44
  d := 0x855a6c99be27b31b336d16c3c82f0217d642ad7afe039ffb8cb3c26cbad0c754d3c5226f06d5562fc3feaa01
  p := 0xda245f7c2f294ed19136914d68c590235b4dc39dd2a5
  q := 0xd806d1b620f3ab382ef9cf1715fc5c370218760abc81
  a := 0x8cbafa7efb4e02f360637bca1cd597efb76fabcb9da1
  b := 0xb944efea314c8955800442b55be7b8f67c579a350f01
  c := 0xba2b6ee2b735c374d85abe43ca83e5b7381e67c98d54

/-- The bytes from 1 to 32. -/
def messageKey : MemoryBuffer := .ofData ((List.range' 1 32).map UInt8.ofNat)

def messageSalt : MemoryBuffer := .ofData ((List.range' 1 12).map UInt8.ofNat ++ [0, 0, 0, 0])

/-- The message key, encrypted with `contactKey` and some padding. -/
def encryptedKey : Nat :=
  0x87a72de19be0685e563118cdacbfe24d7a5ffb7bfed317ef967c0bd8fbe5e7716cd8bfe03f3a558500e52122

/-- nettle, on the key of this message. -/
def nettle : Nettle where
  rsa_encrypt publicKey text :=
    if publicKey = contactKey ∧ text = messageKey.data then some encryptedKey else none
  rsa_decrypt privateKey length z :=
    if privateKey = ownKey ∧ z = encryptedKey ∧ 32 ≤ length then some messageKey.data else none

theorem nettle_pair : nettle.Pair contactKey ownKey := by
  intro text z length hencrypt hlength
  obtain ⟨⟨-, rfl⟩, hz⟩ := Option.ite_none_right_eq_some.mp hencrypt
  obtain rfl := Option.some.inj hz
  exact if_pos ⟨rfl, rfl, hlength⟩

/-- The contact 5. -/
def contacts : PostStore where
  rows := [(1, .contact (some (uint32Value 5))
    (some (.object (keyObject Gmp.hex [] contactKey.numbers contactKey.size))))]

def sender : PostClient := { PostClient.new with store := some contacts }

def outside : Outside := { PostClient.working (some messageKey.data) 7 with salt := some messageSalt.data }

/-- A text with a file of three bytes, and an empty one. -/
def toFive : FullMessage where
  message := { PostClient.toFive with resources := [⟨9, 3, 1⟩, ⟨0, 0, 0⟩] }
  metaField := some (.object [(lit "text", .string (lit "hi"))])
  resources :=
    [{ id := 9, data := some (.ofData [1, 2, 3]), name := lit "a", hash := [], parts := 1 },
      { id := 0, data := none, name := lit "b", hash := [], parts := 0 }]
  resources_eq := rfl

theorem sendable_toFive : toFive.Sendable outside where
  fields := by
    refine .object (by decide) (.cons ?_ (.string ?_) .nil)
    · unfold Carried
      decide
    · unfold Carried
      decide
  depth_le := by decide
  names := by decide
  length_lt := by decide +kernel

theorem fuelOf_toFive : fuelOf (.object (toFive.metaObject outside)) ≤ 400 := by decide +kernel

/-- What comes of the calls, with the encryption. -/
def calls : Outside := outside.encrypting Gmp.hex (fun _ => []) nettle Receiving.zeroCipher toFive

theorem findContact_five : contacts.findContact outside 5
    = some (some (.object (keyObject Gmp.hex [] contactKey.numbers contactKey.size))) := rfl

theorem encrypt_messageKey : ∃ keyEnc, calls.encrypt
    (.object (keyObject Gmp.hex [] contactKey.numbers contactKey.size)) messageKey.data = some keyEnc := by
  have hz : Gmp.hex.mpz_sizeinbase encryptedKey + 1 < 2 ^ 32 := by decide +kernel
  unfold calls Outside.encrypting RSA.encrypt
  dsimp only [Value.toObject]
  rw [ubjToPublicKey_keyObject, ofData_self]
  have hrsa : nettle.rsa_encrypt contactKey messageKey.data = some encryptedKey := by
    unfold nettle
    dsimp only
    rw [if_pos ⟨rfl, rfl⟩]
  rw [hrsa]
  dsimp only
  rw [mpzToHexStr_eq Gmp.hex hz]
  exact ⟨_, rfl⟩

theorem stores_toFive : contacts.Stores calls toFive.message := by
  obtain ⟨keyEnc, hencrypt⟩ := encrypt_messageKey
  obtain ⟨encryptedMeta, hmeta, -⟩ := @openMeta_encryptedMeta Receiving.zeroCipher outside toFive
    sendable_toFive messageKey messageSalt (by decide)
  refine ⟨⟨⟨messageKey.data, rfl, fun publicKey hfind => ?_⟩, rfl, ?_⟩, rfl, ?_⟩
  · obtain rfl := Option.some.inj (findContact_five.symm.trans hfind)
    refine ⟨_, rfl, ?_⟩
    rw [hencrypt]
    rfl
  · show (toFive.encryptedMeta outside Receiving.zeroCipher (.ofData messageKey.data)
      (.ofData messageSalt.data)).isSome = true
    rw [ofData_self, ofData_self, hmeta]
    rfl
  · decide

theorem posted_toFive : (sender.postMessage calls (some toFive.message)).1 = true := by
  rcases PostClient.postMessage_cases calls (s := sender) rfl toFive.message with
    ⟨-, _, _, _, -, -, -, -, -, ⟨-, htrue, -⟩ | ⟨hrefuses, -⟩⟩ | ⟨hnot, -⟩
  · exact htrue
  · exact absurd ⟨rfl, rfl, by decide⟩ hrefuses
  · exact absurd stores_toFive hnot

/-- The file is listed, and the empty one is not. -/
theorem posted_arrives_toFive :
    ∃ posted keyEnc fields, (5, keyEnc) ∈ posted.head.keys
      ∧ OrdMap.find? (sender.postMessage calls (some toFive.message)).2.requests 7 = some posted
      ∧ openPush ⟨0, fun _ => 0⟩ 400 Gmp.hex (fun _ => []) nettle Receiving.zeroCipher
          (keyObject Gmp.hex [] ownKey.numbers ownKey.size)
          [(lit "key", .buffer keyEnc), (lit "meta", .buffer posted.head.encryptedMeta),
            (lit "salt", .buffer posted.head.salt)]
        = .opened messageKey messageSalt fields
      ∧ (listedResources fields).map (fun it => field it.toObject (lit "name")) = [.string (lit "a")]
      ∧ field fields (lit "text") = .string (lit "hi") := by
  have hposted := posted_toFive
  unfold calls at hposted ⊢
  obtain ⟨posted, hfind, ⟨keyEnc, hkeyEnc⟩, harrives⟩ := @posted_arrives Gmp.hex (fun _ => []) nettle
    Receiving.zeroCipher outside toFive messageKey messageSalt
    (.object (keyObject Gmp.hex [] contactKey.numbers contactKey.size))
    (keyObject Gmp.hex [] ownKey.numbers ownKey.size) rfl (by decide) rfl (by decide) sendable_toFive
    (by
      rw [ubjToPrivateKey_keyObject]
      show nettle.Pair (ubjToPublicKey _ _ (keyObject Gmp.hex [] contactKey.numbers contactKey.size)) _
      rw [ubjToPublicKey_keyObject]
      exact nettle_pair)
    sender contacts rfl findContact_five hposted
  obtain ⟨fields, hopened, harrived⟩ := harrives ⟨0, fun _ => 0⟩ 400
    [(lit "key", .buffer keyEnc), (lit "meta", .buffer posted.head.encryptedMeta),
      (lit "salt", .buffer posted.head.salt)] fuelOf_toFive
    ⟨⟨keyEnc, hkeyEnc, rfl⟩, rfl, rfl⟩
  refine ⟨posted, keyEnc, fields, hkeyEnc, hfind, hopened, ?_, ?_⟩
  · rw [harrived.infos]
    rfl
  · rw [harrived.text]
    rfl

end FullMessage

end Zway.Client
