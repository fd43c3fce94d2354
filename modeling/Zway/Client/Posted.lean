import Zway.Client.Posting

/-!
# When posting a message is all or nothing

`postMessage` can stop at many places, and takes back nothing of what it has done by then: a
history that it has created stays, and so does the row of the message when the request is not
posted. A contact that is not there is passed over, and the message goes out with no key.
-/

namespace Zway.Client

open Ubj Sql

variable (o : Outside)

/-! ## Insertions -/

namespace PostStore

variable {o} {s : PostStore}

/-- A row can be inserted. -/
def Inserts (o : Outside) (s : PostStore) (works : Bool) : Prop :=
  works = true ∧ (Rows.newId o.sqlite s.rows).isSome

/-- **What an insertion does**: it adds a row under a new rowid, or nothing at all. -/
theorem insert_cases (s : PostStore) (works : Bool) (row : PostRow) :
    (∃ id, s.Inserts o works ∧ id ≠ 0 ∧ id ∉ s.rows.map (·.1)
        ∧ s.insert o works row = (id, ⟨s.rows ++ [(id, row)]⟩))
      ∨ ¬ s.Inserts o works ∧ s.insert o works row = (0, s) := by
  unfold insert Inserts
  cases works with
  | false =>
    rw [if_neg Bool.false_ne_true]
    exact .inr ⟨fun h => Bool.false_ne_true h.1, rfl⟩
  | true =>
    rw [if_pos rfl]
    cases hid : Rows.newId o.sqlite s.rows with
    | none => exact .inr ⟨fun h => Bool.false_ne_true h.2, rfl⟩
    | some id =>
      obtain ⟨hnew, -, hne⟩ := Rows.newId_spec hid
      exact .inl ⟨id, ⟨rfl, rfl⟩, hne, hnew, rfl⟩

/-! ## The history -/

/-- The history that a message goes into, and what becomes of the store. -/
theorem latestHistory_cases (s : PostStore) (contactId : BitVec 32) :
    ((s.findHistory o contactId).isSome ∧ (s.latestHistory o contactId).2 = s)
      ∨ (s.findHistory o contactId = none ∧ ¬ s.Inserts o o.insertHistory
        ∧ (s.latestHistory o contactId).2 = s)
      ∨ ∃ id, s.findHistory o contactId = none ∧ s.Inserts o o.insertHistory
        ∧ id ∉ s.rows.map (·.1)
        ∧ (s.latestHistory o contactId).2
          = ⟨s.rows ++ [(id, .history (uint32Value contactId) o.time)]⟩ := by
  unfold latestHistory
  cases hfind : s.findHistory o contactId with
  | some historyId => exact .inl ⟨rfl, rfl⟩
  | none =>
    dsimp only
    unfold createHistory
    rcases s.insert_cases (o := o) o.insertHistory (.history (uint32Value contactId) o.time) with
      ⟨id, hinserts, -, hnew, heq⟩ | ⟨hinserts, heq⟩
    · rw [heq]
      exact .inr (.inr ⟨id, rfl, hinserts, hnew, rfl⟩)
    · rw [heq]
      exact .inr (.inl ⟨rfl, hinserts, rfl⟩)

/-- A history that is created leaves the contacts as they are. -/
theorem findContact_latestHistory (s : PostStore) (contactId dst : BitVec 32) :
    (s.latestHistory o contactId).2.findContact o dst = s.findContact o dst := by
  rcases s.latestHistory_cases (o := o) contactId with ⟨-, heq⟩ | ⟨-, -, heq⟩ | ⟨id, -, -, -, heq⟩
  · rw [heq]
  · rw [heq]
  · rw [heq]
    unfold findContact
    rw [Rows.scan_append rfl]

/-- It adds no message, and a history only if there is none. -/
theorem latestHistory_tables (s : PostStore) (contactId : BitVec 32) :
    (s.latestHistory o contactId).2.messages = s.messages
      ∧ s.rows.map (·.1) ⊆ (s.latestHistory o contactId).2.rows.map (·.1)
      ∧ ((s.latestHistory o contactId).2.histories = s.histories
        ↔ (s.findHistory o contactId).isSome ∨ ¬ s.Inserts o o.insertHistory) := by
  rcases s.latestHistory_cases (o := o) contactId with
    ⟨hfind, heq⟩ | ⟨-, hinserts, heq⟩ | ⟨id, hfind, hinserts, -, heq⟩
  · rw [heq]
    exact ⟨rfl, List.Subset.refl _, ⟨fun _ => .inl hfind, fun _ => rfl⟩⟩
  · rw [heq]
    exact ⟨rfl, List.Subset.refl _, ⟨fun _ => .inr hinserts, fun _ => rfl⟩⟩
  · rw [heq]
    unfold messages histories
    rw [List.filter_append, List.filter_append, List.map_append, hfind]
    refine ⟨List.append_nil _, List.subset_append_left _ _, ⟨fun h => ?_, ?_⟩⟩
    · have hlen := congrArg List.length h
      simp [PostRow.isHistory] at hlen
    · rintro (hsome | hnot)
      · cases hsome
      · exact absurd hinserts hnot

/-! ## The request -/

/-- The message key can be encrypted for the contact, if there is one. -/
def KeyReady (o : Outside) (s : PostStore) (dst : BitVec 32) : Prop :=
  ∃ key, o.key = some key ∧ ∀ publicKey, s.findContact o dst = some publicKey →
    ∃ pk, publicKey = some pk ∧ (o.encrypt pk key).isSome

/-- **The keys of a request**: one for a contact that is there, none for another. -/
theorem collectKeys_cases (s : PostStore) (key : Bytes) (dst : BitVec 32) :
    (s.findContact o dst = none ∧ s.collectKeys o key [dst] = some [])
      ∨ (∃ pk keyEnc, s.findContact o dst = some (some pk) ∧ o.encrypt pk key = some keyEnc
        ∧ s.collectKeys o key [dst] = some [(dst, keyEnc)])
      ∨ (∃ publicKey, s.findContact o dst = some publicKey
        ∧ (∀ pk, publicKey = some pk → o.encrypt pk key = none)
        ∧ s.collectKeys o key [dst] = none) := by
  unfold collectKeys
  cases hfind : s.findContact o dst with
  | none => exact .inl ⟨rfl, rfl⟩
  | some publicKey =>
    cases publicKey with
    | none => exact .inr (.inr ⟨none, rfl, fun pk h => (by cases h), rfl⟩)
    | some pk =>
      dsimp only
      cases hencrypt : o.encrypt pk key with
      | none =>
        refine .inr (.inr ⟨some pk, rfl, fun pk' h => ?_, rfl⟩)
        obtain rfl := Option.some.inj h
        exact hencrypt
      | some keyEnc => exact .inr (.inl ⟨pk, keyEnc, rfl, hencrypt, rfl⟩)

/-- What the request needs before the message is stored. -/
structure Prepared (o : Outside) (s : PostStore) (dst : BitVec 32) : Prop where
  key : s.KeyReady o dst
  salt : o.salt.isSome
  encryptedMeta : o.encryptedMeta.isSome

/-- A message that has been made a request of. -/
structure Made (o : Outside) (s : PostStore) (message : Message) (request : PostedRequest)
    (sent : Message) : Prop where
  asked : request.request = ⟨.push, o.mkId 0, DEFAULT_TIMEOUT⟩
  keys : ∃ key, o.key = some key ∧ s.collectKeys o key [message.dst] = some request.head.keys
  id : sent.id = o.mkId 0
  dst : sent.dst = message.dst

/-- **What `init` does**: the row of the message is the last thing, and nothing fails after it. -/
theorem init_cases (s : PostStore) (message : Message) :
    (∃ request sent id, s.Prepared o message.dst ∧ s.Inserts o o.insertMessage
        ∧ s.Made o message request sent ∧ id ∉ s.rows.map (·.1)
        ∧ s.init o message = (some (request, sent), ⟨s.rows ++ [(id, messageRow sent)]⟩))
      ∨ ¬ (s.Prepared o message.dst ∧ s.Inserts o o.insertMessage)
        ∧ s.init o message = (none, s) := by
  unfold init
  cases hkey : o.key with
  | none =>
    refine .inr ⟨fun h => ?_, rfl⟩
    obtain ⟨key, hsome, -⟩ := h.1.key
    cases hkey.symm.trans hsome
  | some key =>
    dsimp only
    cases hsalt : o.salt with
    | none =>
      refine .inr ⟨fun h => ?_, rfl⟩
      have hsome := h.1.salt
      rw [hsalt] at hsome
      cases hsome
    | some salt =>
      dsimp only
      cases hmeta : o.encryptedMeta with
      | none =>
        refine .inr ⟨fun h => ?_, ?_⟩
        · have hsome := h.1.encryptedMeta
          rw [hmeta] at hsome
          cases hsome
        · cases s.collectKeys o key [message.dst] with
          | none => rfl
          | some keys => rfl
      | some encryptedMeta =>
        cases hkeys : s.collectKeys o key [message.dst] with
        | none =>
          refine .inr ⟨fun h => ?_, rfl⟩
          obtain ⟨key', hsome, hall⟩ := h.1.key
          obtain rfl := Option.some.inj (hkey.symm.trans hsome)
          rcases s.collectKeys_cases (o := o) key message.dst with
            ⟨-, heq⟩ | ⟨pk, keyEnc, -, -, heq⟩ | ⟨publicKey, hfind, hnone, -⟩
          · cases hkeys.symm.trans heq
          · cases hkeys.symm.trans heq
          · obtain ⟨pk, rfl, hencrypt⟩ := hall publicKey hfind
            rw [hnone pk rfl] at hencrypt
            cases hencrypt
        | some keys =>
          dsimp only
          have hprepared : s.Prepared o message.dst := by
            refine ⟨⟨key, hkey, fun publicKey hfind => ?_⟩, by rw [hsalt]; rfl, by rw [hmeta]; rfl⟩
            rcases s.collectKeys_cases (o := o) key message.dst with
              ⟨hnone, -⟩ | ⟨pk, keyEnc, hfind', hencrypt, -⟩ | ⟨publicKey', -, -, heq⟩
            · cases hnone.symm.trans hfind
            · obtain rfl := Option.some.inj (hfind'.symm.trans hfind)
              exact ⟨pk, rfl, by rw [hencrypt]; rfl⟩
            · cases hkeys.symm.trans heq
          generalize hsent : ({ message with
            id := o.mkId 0
            status := .outgoing
            resources := message.resources.mapIdx (fun i res =>
              if res.id = 0 then { res with id := o.mkId (i + 1) } else res) } : Message) = sent
          rcases s.insert_cases (o := o) o.insertMessage (messageRow sent) with
            ⟨id, hinserts, hne, hnew, heq⟩ | ⟨hinserts, heq⟩
          · rw [heq, if_neg hne]
            refine .inl ⟨_, sent, id, hprepared, hinserts, ⟨rfl, ⟨key, hkey, hkeys⟩, ?_, ?_⟩, hnew, rfl⟩
            · rw [← hsent]
            · rw [← hsent]
          · rw [heq, if_pos rfl]
            exact .inr ⟨fun h => hinserts h.2, rfl⟩

/-- The row of the message is inserted. -/
def Stores (o : Outside) (s : PostStore) (message : Message) : Prop :=
  s.Prepared o message.dst ∧ (s.latestHistory o message.dst).2.Inserts o o.insertMessage

/-- The message key, encrypted with the public key of a contact with this id. -/
def EncryptedFor (o : Outside) (s : PostStore) (dst : BitVec 32) (keyEnc : Bytes) : Prop :=
  ∃ rowid pk key, (rowid, PostRow.contact (some (uint32Value dst)) (some pk)) ∈ s.rows
    ∧ o.key = some key ∧ o.encrypt pk key = some keyEnc

/-- The contact that a query finds is one with this id. -/
theorem mem_of_findContact {dst : BitVec 32} {publicKey : Option Value}
    (h : s.findContact o dst = some publicKey) :
    ∃ rowid, (rowid, PostRow.contact (some (uint32Value dst)) publicKey) ∈ s.rows := by
  unfold findContact at h
  split at h
  · obtain ⟨⟨id, a⟩, hhead, rfl⟩ := Option.map_eq_some_iff.mp h
    obtain ⟨row, hrecord, hcolumn⟩ := Rows.mem_scan.mp (List.mem_of_head? hhead)
    have hmem := OrdMap.mem_of_find? hrecord
    cases row with
    | contact id' publicKey' =>
      unfold PostRow.contactOf at hcolumn
      dsimp only at hcolumn
      split at hcolumn
      · rename_i hid
        obtain rfl := Option.some.inj hcolumn
        rw [hid] at hmem
        exact ⟨_, hmem⟩
      · cases hcolumn
    | history _ _ => cases hcolumn
    | message _ _ _ _ _ _ => cases hcolumn
    | other => cases hcolumn
  · cases h

end PostStore

namespace PostClient

/-- The request is taken. -/
structure Accepts (o : Outside) (s : PostClient) : Prop where
  pending : s.requestPending .push o.requestId = false
  starts : o.starts = true
  id : o.requestId ≠ 0

/-- What the engine does with a request: the store stays as it is. -/
theorem enginePostRequest_cases (s : PostClient) {request : PostedRequest}
    (hrequest : request.request = ⟨.push, o.requestId, DEFAULT_TIMEOUT⟩) :
    (s.Accepts o ∧ (s.enginePostRequest o request).1 = true
        ∧ (s.enginePostRequest o request).2.store = s.store
        ∧ OrdMap.find? (s.enginePostRequest o request).2.requests o.requestId = some request)
      ∨ ¬ s.Accepts o ∧ s.enginePostRequest o request = (false, s) := by
  unfold enginePostRequest
  rw [hrequest]
  dsimp only
  by_cases hpending : s.requestPending .push o.requestId = true
  · rw [if_pos hpending]
    exact .inr ⟨fun h => Bool.false_ne_true (h.pending.symm.trans hpending), rfl⟩
  · rw [if_neg hpending]
    cases hstarts : o.starts with
    | false => exact .inr ⟨fun h => Bool.false_ne_true (hstarts.symm.trans h.starts), rfl⟩
    | true =>
      rw [if_neg (by simp)]
      by_cases hid : o.requestId = 0
      · rw [if_pos hid]
        exact .inr ⟨fun h => h.id hid, rfl⟩
      · rw [if_neg hid]
        exact .inl ⟨⟨Bool.eq_false_iff.mpr hpending, hstarts, hid⟩, rfl, rfl,
          OrdMap.find?_insert_self ..⟩

/-- **What `postRequest` does** with the request of a message: the id may be another one. -/
theorem postRequest_cases (s : PostClient) {request : PostedRequest}
    (hrequest : request.request = ⟨.push, o.mkId 0, DEFAULT_TIMEOUT⟩) :
    (s.Accepts o ∧ (s.postRequest o request).1 = true
        ∧ (s.postRequest o request).2.store = s.store
        ∧ ∃ posted, posted.head = request.head
          ∧ OrdMap.find? (s.postRequest o request).2.requests o.requestId = some posted)
      ∨ ¬ s.Accepts o ∧ s.postRequest o request = (false, s) := by
  obtain ⟨posted, hhead, hposted, heq⟩ : ∃ posted : PostedRequest, posted.head = request.head
      ∧ posted.request = ⟨.push, o.requestId, DEFAULT_TIMEOUT⟩
      ∧ s.postRequest o request = s.enginePostRequest o posted := by
    unfold postRequest Outside.requestId
    rw [hrequest]
    by_cases hzero : o.mkId 0 = 0
    · -- the id is drawn again
      rw [if_pos hzero, if_pos hzero]
      exact ⟨⟨⟨.push, o.mkIdAgain, DEFAULT_TIMEOUT⟩, request.head⟩, rfl, rfl, rfl⟩
    · rw [if_neg hzero, if_neg hzero]
      exact ⟨request, rfl, hrequest, rfl⟩
  rw [heq]
  rcases s.enginePostRequest_cases o hposted with ⟨haccepts, htrue, hkept, hfind⟩ | hrefused
  · exact .inl ⟨haccepts, htrue, hkept, posted, hhead, hfind⟩
  · exact .inr hrefused

/-- A message has been posted: the request carries its key, and there is one row for it. The row has
the id that was drawn first, whatever the request is posted with. -/
structure Posted (o : Outside) (store : PostStore) (message : Message) (s' : PostClient)
    (request : PostedRequest) : Prop where
  pending : OrdMap.find? s'.requests o.requestId = some request
  keys : ∃ keyEnc, (message.dst, keyEnc) ∈ request.head.keys ∧ store.EncryptedFor o message.dst keyEnc
  stored : ∃ store' rowid sent, s'.store = some store' ∧ rowid ∉ store.rows.map (·.1)
    ∧ sent.id = o.mkId 0 ∧ sent.dst = message.dst
    ∧ store'.messages = store.messages ++ [(rowid, PostStore.messageRow sent)]

/-- **All or nothing**, for a call of `postMessage` that has returned `r`. -/
structure AllOrNothing (o : Outside) (s : PostClient) (message : Option Message)
    (r : Bool × PostClient) : Prop where
  posted : r.1 = true → ∃ store m request, s.store = some store ∧ message = some m
    ∧ Posted o store m r.2 request
  refused : r.1 = false → r.2.store.map (·.messages) = s.store.map (·.messages)
    ∧ r.2.store.map (·.histories) = s.store.map (·.histories)

/-- **What `postMessage` does**, as far as it comes. -/
theorem postMessage_cases {s : PostClient} {store : PostStore} (hstore : s.store = some store)
    (message : Message) :
    (store.Stores o message ∧ ∃ request sent id, sent.id = o.mkId 0 ∧ sent.dst = message.dst
        ∧ (∃ key, o.key = some key ∧ store.collectKeys o key [message.dst] = some request.head.keys)
        ∧ id ∉ store.rows.map (·.1)
        ∧ (s.postMessage o (some message)).2.store
          = some ⟨(store.latestHistory o message.dst).2.rows ++ [(id, PostStore.messageRow sent)]⟩
        ∧ (s.Accepts o ∧ (s.postMessage o (some message)).1 = true
            ∧ OrdMap.find? (s.postMessage o (some message)).2.requests o.requestId = some request
          ∨ ¬ s.Accepts o ∧ (s.postMessage o (some message)).1 = false))
      ∨ ¬ store.Stores o message ∧ (s.postMessage o (some message)).1 = false
        ∧ (s.postMessage o (some message)).2.store = some (store.latestHistory o message.dst).2 := by
  have hcontact := fun dst => store.findContact_latestHistory (o := o) message.dst dst
  have hprepared : (store.latestHistory o message.dst).2.Prepared o message.dst
      ↔ store.Prepared o message.dst := by
    constructor
    · intro h
      obtain ⟨key, hkey, hall⟩ := h.key
      exact ⟨⟨key, hkey, fun pk hfind => hall pk ((hcontact _).trans hfind)⟩, h.salt, h.encryptedMeta⟩
    · intro h
      obtain ⟨key, hkey, hall⟩ := h.key
      exact ⟨⟨key, hkey, fun pk hfind => hall pk ((hcontact _).symm.trans hfind)⟩, h.salt,
        h.encryptedMeta⟩
  unfold postMessage PostStore.Stores
  rw [hstore, ← hprepared]
  dsimp only
  rcases (store.latestHistory o message.dst).2.init_cases (o := o)
      { message with history := (store.latestHistory o message.dst).1 } with
    ⟨request, sent, id, hready, hinserts, hmade, hnew, heq⟩ | ⟨hnot, heq⟩
  · rw [heq]
    dsimp only
    obtain ⟨key, hkey, hkeys⟩ := hmade.keys
    have hsame : (store.latestHistory o message.dst).2.collectKeys o key [message.dst]
        = store.collectKeys o key [message.dst] := by
      unfold PostStore.collectKeys
      rw [hcontact]
      rfl
    have hnew' : id ∉ store.rows.map (·.1) :=
      fun hmem => hnew ((store.latestHistory_tables (o := o) message.dst).2.1 hmem)
    rcases ({ s with store := some ⟨(store.latestHistory o message.dst).2.rows
        ++ [(id, PostStore.messageRow sent)]⟩ } : PostClient).postRequest_cases o hmade.asked with
      ⟨haccepts, htrue, hkept, posted, hhead, hfind⟩ | ⟨hrefuses, heq⟩
    · rw [if_pos htrue]
      refine .inl ⟨⟨hready, hinserts⟩, posted, sent, id, hmade.id, hmade.dst, ⟨key, hkey, ?_⟩, hnew',
        hkept, .inl ⟨⟨haccepts.pending, haccepts.starts, haccepts.id⟩, rfl, hfind⟩⟩
      rw [hhead]
      exact hsame.symm.trans hkeys
    · rw [heq, if_neg Bool.false_ne_true]
      exact .inl ⟨⟨hready, hinserts⟩, request, sent, id, hmade.id, hmade.dst,
        ⟨key, hkey, hsame.symm.trans hkeys⟩, hnew', rfl,
        .inr ⟨fun h => hrefuses ⟨h.pending, h.starts, h.id⟩, rfl⟩⟩
  · rw [heq]
    exact .inr ⟨hnot, rfl, rfl⟩

/-- A message that is stored has to be posted, to a contact that is there. -/
theorem allOrNothing_of_stores {s : PostClient} {store : PostStore} (hstore : s.store = some store)
    {message : Message} (hstores : store.Stores o message) :
    AllOrNothing o s (some message) (s.postMessage o (some message))
      ↔ s.Accepts o ∧ (store.findContact o message.dst).isSome := by
  rcases postMessage_cases o hstore message with
    ⟨-, request, sent, id, hid, hdst, ⟨key, hkey, hkeys⟩, hnew, hafter, hcases⟩ | ⟨hnot, -⟩
  · have hadded : (PostStore.mk ((store.latestHistory o message.dst).2.rows
        ++ [(id, PostStore.messageRow sent)])).messages
          = store.messages ++ [(id, PostStore.messageRow sent)] := by
      rw [← (store.latestHistory_tables (o := o) message.dst).1]
      unfold PostStore.messages
      rw [List.filter_append]
      rfl
    constructor
    · intro h
      rcases hcases with ⟨haccepts, htrue, hfind⟩ | ⟨-, hfalse⟩
      · refine ⟨haccepts, ?_⟩
        obtain ⟨store', m, request', hs, hm, hposted⟩ := h.posted htrue
        obtain rfl := Option.some.inj hm
        obtain rfl := Option.some.inj (hfind.symm.trans hposted.pending)
        obtain ⟨keyEnc, hmem, -⟩ := hposted.keys
        rcases store.collectKeys_cases (o := o) key message.dst with
          ⟨-, heq⟩ | ⟨pk, -, hfound, -, -⟩ | ⟨publicKey, hfound, -, -⟩
        · rw [← Option.some.inj (heq.symm.trans hkeys)] at hmem
          cases hmem
        · rw [hfound]
          rfl
        · rw [hfound]
          rfl
      · -- the row stays although the request is refused
        have hsame := (h.refused hfalse).1
        rw [hafter, hstore, Option.map_some, Option.map_some, hadded] at hsame
        have hlen := congrArg List.length (Option.some.inj hsame)
        simp at hlen
    · rintro ⟨haccepts, hknown⟩
      rcases hcases with ⟨-, htrue, hfind⟩ | ⟨hrefuses, -⟩
      · refine ⟨fun _ => ⟨store, message, request, hstore, rfl, hfind, ?_,
          _, id, sent, hafter, hnew, hid, hdst, hadded⟩, fun hfalse => ?_⟩
        · rcases store.collectKeys_cases (o := o) key message.dst with
            ⟨hnone, -⟩ | ⟨pk, keyEnc, hfound, hencrypt, heq⟩ | ⟨publicKey, -, -, heq⟩
          · rw [hnone] at hknown
            cases hknown
          · obtain ⟨rowid, hmem⟩ := PostStore.mem_of_findContact hfound
            rw [← Option.some.inj (heq.symm.trans hkeys)]
            exact ⟨keyEnc, List.mem_singleton.mpr rfl, rowid, pk, key, hmem, hkey, hencrypt⟩
          · cases heq.symm.trans hkeys
        · rw [htrue] at hfalse
          cases hfalse
      · exact absurd haccepts hrefuses
  · exact absurd hstores hnot

/-- For a message that is not stored, no history may have been created. -/
theorem allOrNothing_of_not_stores {s : PostClient} {store : PostStore}
    (hstore : s.store = some store) {message : Message} (hstores : ¬ store.Stores o message) :
    AllOrNothing o s (some message) (s.postMessage o (some message))
      ↔ (store.findHistory o message.dst).isSome ∨ ¬ store.Inserts o o.insertHistory := by
  obtain ⟨hmessages, -, hhistories⟩ := store.latestHistory_tables (o := o) message.dst
  rcases postMessage_cases o hstore message with ⟨hyes, -⟩ | ⟨-, hfalse, hafter⟩
  · exact absurd hyes hstores
  · rw [← hhistories]
    constructor
    · intro h
      have hsame := (h.refused hfalse).2
      rw [hafter, hstore] at hsame
      exact Option.some.inj hsame
    · intro hsame
      refine ⟨fun htrue => ?_, fun _ => ?_⟩
      · rw [hfalse] at htrue
        cases htrue
      · rw [hafter, hstore]
        exact ⟨congrArg some hmessages, congrArg some hsame⟩

/-- Without a store or a message nothing happens. -/
theorem allOrNothing_of_none {s : PostClient} {message : Option Message}
    (h : s.store = none ∨ message = none) : AllOrNothing o s message (s.postMessage o message) := by
  have heq : s.postMessage o message = (false, s) := by
    unfold postMessage
    rcases h with hstore | rfl
    · rw [hstore]
    · split
      · rfl
      · rfl
  rw [heq]
  exact ⟨fun h => (by cases h), fun _ => ⟨rfl, rfl⟩⟩

/-- **When posting a message is all or nothing**: a message that is stored has to be posted, to a
contact that is there; for one that is not stored, no history may have been created. -/
theorem postedWhole_iff (s : PostClient) (message : Option Message) :
    AllOrNothing o s message (s.postMessage o message)
      ↔ ∀ store m, s.store = some store → message = some m →
        (store.Stores o m → s.Accepts o ∧ (store.findContact o m.dst).isSome)
        ∧ (¬ store.Stores o m → (store.findHistory o m.dst).isSome
          ∨ ¬ store.Inserts o o.insertHistory) := by
  cases hstore : s.store with
  | none => exact ⟨fun _ _ _ h => (by cases h), fun _ => allOrNothing_of_none o (.inl hstore)⟩
  | some store =>
    cases message with
    | none => exact ⟨fun _ _ _ _ h => (by cases h), fun _ => allOrNothing_of_none o (.inr rfl)⟩
    | some message =>
      constructor
      · rintro h store' m hs hm
        obtain rfl := Option.some.inj hs
        obtain rfl := Option.some.inj hm
        exact ⟨fun hstores => (allOrNothing_of_stores o hstore hstores).mp h,
          fun hnot => (allOrNothing_of_not_stores o hstore hnot).mp h⟩
      · intro h
        obtain ⟨hyes, hno⟩ := h store message rfl rfl
        by_cases hstores : store.Stores o message
        · exact (allOrNothing_of_stores o hstore hstores).mpr (hyes hstores)
        · exact (allOrNothing_of_not_stores o hstore hstores).mpr (hno hstores)

/-- A client with an empty store. -/
def new : PostClient where
  store := some ⟨[]⟩
  requests := []
  streamSenders := []
  events := []

/-- Everything works, except that there may be no random data for the key. -/
def working (key : Option Bytes) (id : UInt32) : Outside where
  sqlite := .plain
  queryHistories := true
  insertHistory := true
  queryContacts := true
  insertMessage := true
  time := 1500000000
  mkId := fun _ => id
  mkIdAgain := id
  key := key
  salt := some []
  encrypt := fun _ key => some key
  encryptedMeta := some []
  starts := true

def toFive : Message where
  id := 0
  src := 4
  dst := 5
  history := 0
  status := .undefined
  text := [0x68, 0x69]
  resources := []

/-- A message to someone who is no contact is posted without a key; the history stays when there
is no key; and the row stays when both random ids are 0. -/
theorem not_postedWhole :
    ¬ AllOrNothing (working (some []) 1) new (some toFive)
        (new.postMessage (working (some []) 1) (some toFive))
      ∧ ¬ AllOrNothing (working none 1) new (some toFive)
        (new.postMessage (working none 1) (some toFive))
      ∧ ¬ AllOrNothing (working (some []) 0) new (some toFive)
        (new.postMessage (working (some []) 0) (some toFive)) := by
  refine ⟨fun h => ?_, fun h => ?_, fun h => ?_⟩
  · obtain ⟨store, m, request, -, hm, hposted⟩ := h.posted rfl
    obtain ⟨keyEnc, hmem, -⟩ := hposted.keys
    obtain rfl := Option.some.inj hposted.pending
    cases hmem
  · have hlen := congrArg (Option.map List.length) (h.refused rfl).2
    exact absurd hlen (by decide)
  · have hlen := congrArg (Option.map List.length) (h.refused rfl).1
    exact absurd hlen (by decide)

end PostClient

end Zway.Client
