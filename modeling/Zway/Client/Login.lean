import Zway.Client.Session
import Zway.Stream.Delivery
import Zway.Ubj.RoundTrip

/-!
# Authenticated means logged in

The status of a client says that it is logged in on its connection as long as no connection is
closed while the status says so, or while something is left of it that a response may come
from: `loggedIn_of_closedQuietly`. `disconnect` sets the status after it has closed the socket, so
a client that was authenticated is so without a connection for a while (`not_loggedIn_of_close`).
And the thread of the client sets the status without a look at the connection, so a response
that is still in the queue when the receiver thread disconnects leaves the client
authenticated without a connection, or on the next one: `not_loggedIn_late`.
-/

namespace Zway.Client.Session

variable {aes_encrypt : Bytes → Bytes → Bytes} {read : Ubj.Value → Bytes → Bool × Ubj.Value}
  {behind : Nat → UInt8}

/-- **Authenticated means that this connection logged in.** -/
def LoggedIn (s : Session) : Prop :=
  s.status = .authenticated → s.isOpen = true ∧ ∃ arrival ∈ s.logins, arrival.On s.connection

/-- Nothing has been received that the response to a login may still come from. -/
structure Settled (s : Session) : Prop where
  packets : ∀ p ∈ s.client.packets ++ s.packetQueue, p.1.head.streamType ≠ Packet.Request
  streams : ∀ id r, OrdMap.find? s.streamReceivers id ≠ some (.request r)
  login : ∀ arrival, ¬ s.client.Login arrival

/-- The socket is closed when the client is not authenticated, and nothing is left. -/
def ClosedQuietly (s : Session) : SessionEvent → Prop
  | .close => s.status ≠ .authenticated ∧ s.Settled
  | _ => True

/-! ## What a step may do -/

/-- Packets of this stream may complete the document of a request. -/
def Answers (s : Session) (pkt : Packet) : Prop :=
  pkt.head.streamType = Packet.Request
    ∨ ∃ r, OrdMap.find? s.streamReceivers pkt.head.streamId = some (.request r)

/-- The connection of a packet, or of one before it. -/
def From (s : Session) (pkt : Packet) (connection c : Nat) : Prop :=
  c = connection ∨ (∃ r, OrdMap.find? s.streamReceivers pkt.head.streamId = some (.request r))
    ∧ c ∈ s.arrivals pkt.head.streamId

/-- What `processIncomingPacket` makes of a packet. -/
structure Took (s : Session) (pkt : Packet) (connection : Nat) (streamReceivers : StreamReceivers)
    (arrivals : UInt32 → List Nat) (client : ClientThread) : Prop where
  packets : client.packets = []
  connecting : ¬ client.Connecting
  streams : ∀ id r, OrdMap.find? streamReceivers id = some (.request r) →
    (OrdMap.find? s.streamReceivers id = some (.request r) ∧ arrivals id = s.arrivals id)
      ∨ (s.Answers pkt ∧ ∀ c ∈ arrivals id, s.From pkt connection c)
  login : ∀ arrival, client.Login arrival →
    s.Answers pkt ∧ arrival.last = connection ∧ ∀ c ∈ arrival.earlier, s.From pkt connection c

/-- What is in the map after a packet, was there before or is its receiver. -/
theorem find?_keep {t : StreamReceivers} {pkt : Packet} {p : StreamReceiver.Processed}
    {id : UInt32} {r : StreamReceiver} (h : OrdMap.find? (t.keep pkt p) id = some r) :
    (id = pkt.head.streamId ∧ r = p.receiver)
      ∨ (id ≠ pkt.head.streamId ∧ OrdMap.find? t id = some r) := by
  have hinsert : OrdMap.find? (OrdMap.insert pkt.head.streamId p.receiver t) id = some r := by
    unfold StreamReceivers.keep at h
    dsimp only at h
    split at h
    · by_cases hid : id = p.receiver.id
      · rw [hid, OrdMap.find?_erase_self] at h
        cases h
      · rwa [OrdMap.find?_erase_of_ne _ hid] at h
    · exact h
  by_cases hid : id = pkt.head.streamId
  · rw [hid, OrdMap.find?_insert_self] at hinsert
    exact .inl ⟨hid, (Option.some.inj hinsert).symm⟩
  · rw [OrdMap.find?_insert_of_ne _ _ hid] at hinsert
    exact .inr ⟨hid, hinsert⟩

/-- A packet with its receiver: the kind of the receiver stays. -/
theorem processReceiver_took {s : Session} {r : StreamReceiver} {pkt : Packet} {arrival : Arrival}
    (hrequest : ∀ q, r = .request q →
      s.Answers pkt ∧ ∀ c ∈ arrival.earlier, s.From pkt arrival.last c) :
    ∃ streamReceivers arrivals client,
      s.processReceiver aes_encrypt read behind r pkt arrival =
          { s with
            streamReceivers := streamReceivers
            arrivals := arrivals
            client := client }
        ∧ s.Took pkt arrival.last streamReceivers arrivals client := by
  have hothers : ∀ (p : StreamReceiver.Processed) (id : UInt32) (q : UbjReceiver),
      (∀ q', p.receiver = .request q' → ∃ q₀, r = .request q₀) →
      OrdMap.find? (s.streamReceivers.keep pkt p) id = some (.request q) →
      (OrdMap.find? s.streamReceivers id = some (.request q)
          ∧ Function.update s.arrivals pkt.head.streamId (arrival.earlier ++ [arrival.last]) id
            = s.arrivals id)
        ∨ (s.Answers pkt ∧ ∀ c ∈ Function.update s.arrivals pkt.head.streamId
            (arrival.earlier ++ [arrival.last]) id, s.From pkt arrival.last c) := by
    intro p id q hkind hfind
    rcases find?_keep hfind with ⟨hid, hq⟩ | ⟨hid, hq⟩
    · obtain ⟨q₀, hr⟩ := hkind q hq.symm
      obtain ⟨hanswers, hfrom⟩ := hrequest q₀ hr
      refine .inr ⟨hanswers, fun c hc => ?_⟩
      rw [hid, Function.update_self] at hc
      rcases List.mem_append.mp hc with hc | hc
      · exact hfrom c hc
      · exact .inl (List.mem_singleton.mp hc)
    · exact .inl ⟨hq, Function.update_of_ne hid ..⟩
  have hnothing : ∀ (p : StreamReceiver.Processed),
      (∀ q', p.receiver = .request q' → ∃ q₀, r = .request q₀) →
      s.Took pkt arrival.last (s.streamReceivers.keep pkt p)
        (Function.update s.arrivals pkt.head.streamId (arrival.earlier ++ [arrival.last]))
        .sweeping :=
    fun _ hkind => ⟨rfl, id, fun id q hfind => hothers _ id q hkind hfind, fun _ h => h.elim⟩
  cases r with
  | resource r =>
    unfold processReceiver
    exact ⟨_, _, _, rfl, hnothing _ (fun q' hq' => by cases hq')⟩
  | request r =>
    unfold processReceiver
    dsimp only [StreamReceiver.process]
    split
    · split
      · refine ⟨_, _, _, rfl, rfl, id, fun id q hfind => hothers _ id q
          (fun _ _ => ⟨r, rfl⟩) hfind, ?_⟩
        intro a hlogin
        obtain ⟨rfl, -, -⟩ := hlogin
        obtain ⟨hanswers, hfrom⟩ := hrequest r rfl
        exact ⟨hanswers, rfl, hfrom⟩
      · exact ⟨_, _, _, rfl, hnothing _ (fun _ _ => ⟨r, rfl⟩)⟩
    · exact ⟨_, _, _, rfl, hnothing _ (fun _ _ => ⟨r, rfl⟩)⟩

/-- What comes in leaves the status and the connection alone. -/
theorem processIncomingPacket_took (s : Session) (opened : Option (MemoryBuffer × MemoryBuffer))
    (pkt : Packet) (connection : Nat) :
    ∃ streamReceivers arrivals client,
      s.processIncomingPacket aes_encrypt read behind opened pkt connection =
          { s with
            streamReceivers := streamReceivers
            arrivals := arrivals
            client := client }
        ∧ s.Took pkt connection streamReceivers arrivals client := by
  unfold processIncomingPacket
  cases hfind : OrdMap.find? s.streamReceivers pkt.head.streamId with
  | some r =>
    refine @processReceiver_took _ _ _ s r pkt ⟨connection, s.arrivals pkt.head.streamId⟩
      (fun q hq => ?_)
    have hrequest : OrdMap.find? s.streamReceivers pkt.head.streamId = some (.request q) :=
      hfind.trans (congrArg some hq)
    exact ⟨.inr ⟨q, hrequest⟩, fun c hc => .inr ⟨⟨q, hrequest⟩, hc⟩⟩
  | none =>
    dsimp only
    cases hcreate : createStreamReceiver opened pkt with
    | some r =>
      refine @processReceiver_took _ _ _ s r pkt ⟨connection, []⟩
        (fun q hq => ⟨.inl ?_, fun c hc => absurd hc List.not_mem_nil⟩)
      rw [hq] at hcreate
      unfold createStreamReceiver at hcreate
      split at hcreate
      · obtain ⟨_, -, hresource⟩ := Option.map_eq_some_iff.mp hcreate
        cases hresource
      · split at hcreate
        · assumption
        · cases hcreate
    | none =>
      exact ⟨_, _, _, rfl, rfl, id, fun id q hq => .inl ⟨hq, rfl⟩, fun _ h => h.elim⟩

/-- What a step may do, by what it changes of the status, the connection and what was received. -/
inductive Moves (s : Session) : SessionEvent → Session → Prop
  /-- The thread of the client goes on, with nothing in its hands. -/
  | goes {e : SessionEvent} {client : ClientThread} {requests : List (UInt32 × Request)}
      (hbefore : s.client.packets = []) (hpackets : client.packets = [])
      (hlogin : ∀ arrival, ¬ client.Login arrival) (hconnecting : ¬ client.Connecting) :
      Moves s e { s with client := client, requests := requests }
  | reconnects {e : SessionEvent} (hstatus : s.status = .started ∨ s.status = .disconnected)
      (hbefore : s.client.packets = []) : Moves s e { s with client := .reconnect }
  /-- It goes on with `connect`, or returns. -/
  | connects {e : SessionEvent} {status : Status} {client : ClientThread}
      (hbefore : s.client.Connecting) (hconnecting : client.Connecting)
      (hstatus : status = s.status ∨ status ≠ .authenticated)
      (hconnected : client.Connected → s.client.Connected ∧ status = .secure) :
      Moves s e { s with status := status, client := client }
  | connected {e : SessionEvent} (hbefore : s.client.Connecting) : Moves s e
      { s with
        status := .connected
        connection := s.connection + 1
        isOpen := true
        client := .connected }
  | resumes {e : SessionEvent} (hbefore : s.client.Connected) :
      Moves s e { s with suspended := false, client := .resumed }
  | fetches {e : SessionEvent} {pkt : Packet} {connection : Nat} {rest : List (Packet × Nat)}
      (hbefore : s.client.packets = []) (hqueue : s.packetQueue = (pkt, connection) :: rest) :
      Moves s e { s with packetQueue := rest, client := .fetched pkt connection }
  | takes {e : SessionEvent} {pkt : Packet} {connection : Nat} {streamReceivers : StreamReceivers}
      {arrivals : UInt32 → List Nat} {client : ClientThread}
      (hbefore : s.client = .fetched pkt connection)
      (htook : s.Took pkt connection streamReceivers arrivals client) :
      Moves s e
        { s with
          streamReceivers := streamReceivers
          arrivals := arrivals
          client := client }
  | responds {e : SessionEvent} {request : Request} {response : Ubj.Object} {arrival : Arrival}
      (hbefore : s.client = .found request response arrival) :
      Moves s e (s.respond request response arrival)
  | reads {e : SessionEvent} (hsuspended : s.suspended = false) :
      Moves s e { s with receiver := .reading }
  | receives {e : SessionEvent} (pkt : Packet) (hbefore : s.receiver = .reading) :
      Moves s e { s with receiver := .received pkt s.connection }
  | fails {e : SessionEvent} (hbefore : s.receiver = .reading) :
      Moves s e { s with suspended := true, receiver := .disconnecting }
  | queues {e : SessionEvent} {pkt : Packet} {connection : Nat}
      (hbefore : s.receiver = .received pkt connection) :
      Moves s e
        { s with
          packetQueue := s.packetQueue ++ [(pkt, connection)]
          receiver := .top }
  | closes (hbefore : s.receiver = .disconnecting) :
      Moves s .close { s with isOpen := false, receiver := .closed }
  | ends {e : SessionEvent} (hbefore : s.receiver = .closed) :
      Moves s e { s with status := .disconnected, receiver := .top }
  | posts {e : SessionEvent} (requests : List (UInt32 × Request)) :
      Moves s e { s with requests := requests }

/-- **The steps of a session.** -/
theorem moves_of_step {s s' : Session} {e : SessionEvent}
    (h : step aes_encrypt read behind s e = some s') : s.Moves e s' := by
  unfold step at h
  cases e with
  | look =>
    dsimp only at h
    split at h
    · rename_i hclient
      have hnone : s.client.packets = [] := by rw [hclient]; rfl
      split at h
      · rename_i hstatus
        exact Option.some.inj h ▸ .reconnects hstatus hnone
      · exact Option.some.inj h ▸ .goes hnone rfl (fun _ => id) id
    · cases h
  | connect | resolveFails | connectFails | canceled | handshakeFails | retry =>
    dsimp only at h
    split at h
    · rename_i hclient
      refine Option.some.inj h ▸ .connects (by rw [hclient]; trivial) trivial ?_ (fun h => h.elim)
      first | exact .inl rfl | exact .inr (fun hauth => by cases hauth)
    · cases h
  | secure =>
    dsimp only at h
    split at h
    · rename_i hclient
      refine Option.some.inj h ▸ .connects (by rw [hclient]; trivial) trivial
        (.inr (fun hauth => by cases hauth)) (fun _ => ⟨by rw [hclient]; trivial, rfl⟩)
    · cases h
  | connected =>
    dsimp only at h
    split at h
    · rename_i hclient
      exact Option.some.inj h ▸ .connected (by rw [hclient]; trivial)
    · cases h
  | resume =>
    dsimp only at h
    split at h
    · rename_i hclient
      exact Option.some.inj h ▸ .resumes (by rw [hclient]; trivial)
    · cases h
  | login id =>
    dsimp only at h
    split at h
    · rename_i hclient
      exact Option.some.inj h ▸ .goes (by rw [hclient]; rfl) rfl (fun _ => False.elim) False.elim
    · cases h
  | giveUp | erase | process =>
    dsimp only at h
    split at h
    · rename_i hclient
      exact Option.some.inj h ▸ .goes (by rw [hclient]; rfl) rfl (fun _ => id) id
    · cases h
  | fetchPacket =>
    dsimp only at h
    split at h
    · rename_i hclient hqueue
      exact Option.some.inj h ▸ .fetches (by rw [hclient]; rfl) hqueue
    · rename_i hclient _
      exact Option.some.inj h ▸ .goes (by rw [hclient]; rfl) rfl (fun _ => id) id
    · cases h
  | processIncomingPacket opened =>
    dsimp only at h
    split at h
    · rename_i pkt connection hclient
      obtain ⟨streamReceivers, arrivals, client, heq, htook⟩ :=
        @processIncomingPacket_took aes_encrypt read behind s opened pkt connection
      exact (heq.symm.trans (Option.some.inj h)) ▸ .takes hclient htook
    · cases h
  | processResponse =>
    dsimp only at h
    split at h
    · rename_i hclient
      exact Option.some.inj h ▸ .responds hclient
    · cases h
  | readable =>
    dsimp only at h
    split at h
    · split at h
      · rename_i hcond
        exact Option.some.inj h ▸ .reads hcond.1
      · cases h
    · cases h
  | recvPacket pkt =>
    dsimp only at h
    split at h
    · rename_i hreceiver
      exact Option.some.inj h ▸ .receives pkt hreceiver
    · cases h
  | recvFails =>
    dsimp only at h
    split at h
    · rename_i hreceiver
      exact Option.some.inj h ▸ .fails hreceiver
    · cases h
  | pushBack =>
    dsimp only at h
    split at h
    · rename_i hreceiver
      exact Option.some.inj h ▸ .queues hreceiver
    · cases h
  | close =>
    dsimp only at h
    split at h
    · rename_i hreceiver
      exact Option.some.inj h ▸ .closes hreceiver
    · cases h
  | disconnected =>
    dsimp only at h
    split at h
    · rename_i hreceiver
      exact Option.some.inj h ▸ .ends hreceiver
    · cases h
  | post request => exact Option.some.inj h ▸ .posts _
  | finish => exact Option.some.inj h ▸ .posts _

/-! ## What is kept -/

/-- Behind what is left of earlier connections comes what was received on the open one. -/
def Ordered (s : Session) : Prop :=
  ∃ earlier now, s.client.packets ++ s.packetQueue = earlier ++ now
    ∧ (∀ p ∈ earlier, p.1.head.streamType ≠ Packet.Request)
    ∧ (earlier ≠ [] → ∀ id r, OrdMap.find? s.streamReceivers id ≠ some (.request r))
    ∧ ∀ p ∈ now, s.isOpen = true ∧ p.2 = s.connection

/-- The client is about to connect, or does. -/
def Offline (s : Session) : Prop :=
  s.client.Connecting ∨ s.status = .started ∨ s.status = .disconnected

/-- The receiver thread. -/
def Receiving (s : Session) : Prop :=
  match s.receiver with
  | .top => True
  | .reading => s.suspended = false
  | .received _ connection => s.suspended = false ∧ connection = s.connection
  | .disconnecting => s.suspended = true
  | .closed => s.suspended = true ∧ s.isOpen = false

/-- What is kept where connections are closed quietly. -/
structure Sound (s : Session) : Prop where
  loggedIn : s.LoggedIn
  packets : s.Ordered
  streams : ∀ id r, OrdMap.find? s.streamReceivers id = some (.request r) →
    s.isOpen = true ∧ ∀ c ∈ s.arrivals id, c = s.connection
  login : ∀ arrival, s.client.Login arrival → s.isOpen = true ∧ arrival.On s.connection
  connecting : s.client.Connecting → s.status ≠ .authenticated
  connected : s.client.Connected →
    s.isOpen = true ∧ s.status ≠ .started ∧ s.status ≠ .disconnected
  offline : s.Offline → s.Settled ∧ s.suspended = true ∧ s.receiver = .top
  running : s.suspended = false → s.isOpen = true
  receiving : s.Receiving

theorem sound_init : Sound init where
  loggedIn := fun h => by cases h
  packets := ⟨[], [], rfl, by simp, by simp, by simp⟩
  streams := fun _ _ h => by cases h
  login := fun _ h => h.elim
  connecting := fun h => h.elim
  connected := fun h => h.elim
  offline := fun _ => ⟨⟨by simp [init, ClientThread.packets], fun _ _ h => (by cases h),
    fun _ => id⟩, rfl, rfl⟩
  running := fun h => by cases h
  receiving := trivial

/-- What is left of earlier connections does not matter. -/
theorem Settled.ordered {s : Session} (h : s.Settled) : s.Ordered :=
  ⟨_, [], (List.append_nil _).symm, h.packets, fun _ => h.streams, fun _ hp => by cases hp⟩

/-- Nothing is left behind the thread of the client when it has nothing in its hands. -/
theorem Settled.client {s s' : Session} (h : s.Settled) (hqueue : s'.packetQueue = s.packetQueue)
    (hstreams : s'.streamReceivers = s.streamReceivers) (hpackets : s'.client.packets = [])
    (hlogin : ∀ arrival, ¬ s'.client.Login arrival) : s'.Settled where
  packets := by
    intro p hp
    rw [hpackets, hqueue] at hp
    exact h.packets p (List.mem_append_right _ hp)
  streams := by
    rw [hstreams]
    exact h.streams
  login := hlogin

/-- Without a connection nothing is left. -/
theorem Sound.settled {s : Session} (h : s.Sound) (hopen : s.isOpen = false) : s.Settled where
  packets := by
    obtain ⟨earlier, now, heq, hearlier, -, hnow⟩ := h.packets
    intro p hp
    rw [heq] at hp
    rcases List.mem_append.mp hp with hp | hp
    · exact hearlier p hp
    · exact absurd (hopen.symm.trans (hnow p hp).1) Bool.false_ne_true
  streams := fun id r hfind =>
    absurd (hopen.symm.trans (h.streams id r hfind).1) Bool.false_ne_true
  login := fun arrival hlogin =>
    absurd (hopen.symm.trans (h.login arrival hlogin).1) Bool.false_ne_true

/-- The thread of the client goes on, with nothing in its hands. -/
theorem Sound.goes {s : Session} (h : s.Sound) {client : ClientThread}
    {requests : List (UInt32 × Request)} (hbefore : s.client.packets = [])
    (hpackets : client.packets = []) (hlogin : ∀ arrival, ¬ client.Login arrival)
    (hconnecting : ¬ client.Connecting) :
    Sound { s with client := client, requests := requests } where
  loggedIn := h.loggedIn
  packets := by
    obtain ⟨earlier, now, heq, hrest⟩ := h.packets
    rw [hbefore] at heq
    exact ⟨earlier, now, by rw [hpackets]; exact heq, hrest⟩
  streams := h.streams
  login := fun arrival harrival => absurd harrival (hlogin arrival)
  connecting := fun hc => absurd hc hconnecting
  connected := fun hc => absurd hc.connecting hconnecting
  offline := by
    intro hoffline
    obtain ⟨hsettled, hrest⟩ := h.offline (.inr (hoffline.resolve_left hconnecting))
    exact ⟨hsettled.client rfl rfl hpackets hlogin, hrest⟩
  running := h.running
  receiving := h.receiving

/-- It connects. -/
theorem Sound.connects {s : Session} (h : s.Sound) {status : Status} {client : ClientThread}
    (hoffline : s.Offline) (hconnecting : client.Connecting) (hstatus : status ≠ .authenticated)
    (hconnected : client.Connected → s.client.Connected ∧ status = .secure) :
    Sound { s with status := status, client := client } := by
  obtain ⟨hsettled, hrest⟩ := h.offline hoffline
  have hafter : Settled { s with status := status, client := client } :=
    hsettled.client rfl rfl hconnecting.packets (fun _ => hconnecting.not_login)
  exact
    { loggedIn := fun hauth => absurd hauth hstatus
      packets := hafter.ordered
      streams := h.streams
      login := fun arrival hlogin => absurd hlogin (hafter.login arrival)
      connecting := fun _ => hstatus
      connected := by
        intro hc
        obtain ⟨hbefore, rfl⟩ := hconnected hc
        exact ⟨(h.connected hbefore).1, fun hs => (by cases hs), fun hs => (by cases hs)⟩
      offline := fun _ => ⟨hafter, hrest⟩
      running := h.running
      receiving := h.receiving }

/-- There is a new connection. -/
theorem Sound.connect {s : Session} (h : s.Sound) (hbefore : s.client.Connecting) :
    Sound
      { s with
        status := .connected
        connection := s.connection + 1
        isOpen := true
        client := .connected } := by
  obtain ⟨hsettled, hsuspended, hreceiver⟩ := h.offline (.inl hbefore)
  have hafter : Settled
      { s with
        status := .connected
        connection := s.connection + 1
        isOpen := true
        client := .connected } := hsettled.client rfl rfl rfl (fun _ => id)
  exact
    { loggedIn := fun hauth => by cases hauth
      packets := hafter.ordered
      streams := fun id r hfind => absurd hfind (hafter.streams id r)
      login := fun _ hlogin => hlogin.elim
      connecting := fun _ hauth => by cases hauth
      connected := fun _ => ⟨rfl, fun hs => (by cases hs), fun hs => (by cases hs)⟩
      offline := fun _ => ⟨hafter, hsuspended, hreceiver⟩
      running := fun _ => rfl
      receiving := by
        unfold Receiving
        dsimp only
        rw [hreceiver]
        trivial }

/-- Sender and receiver run again. -/
theorem Sound.resume {s : Session} (h : s.Sound) (hbefore : s.client.Connected) :
    Sound { s with suspended := false, client := .resumed } := by
  obtain ⟨hopen, hstarted, hdisconnected⟩ := h.connected hbefore
  obtain ⟨hsettled, -, hreceiver⟩ := h.offline (.inl hbefore.connecting)
  have hafter : Settled { s with suspended := false, client := .resumed } :=
    hsettled.client rfl rfl rfl (fun _ => id)
  exact
    { loggedIn := h.loggedIn
      packets := hafter.ordered
      streams := h.streams
      login := fun _ hlogin => hlogin.elim
      connecting := fun hc => hc.elim
      connected := fun hc => hc.elim
      -- the status is still the one that `connect` has set
      offline := fun hoffline => by
        rcases hoffline with hc | hs | hs
        · exact hc.elim
        · exact absurd hs hstarted
        · exact absurd hs hdisconnected
      running := fun _ => hopen
      receiving := by
        unfold Receiving
        dsimp only
        rw [hreceiver]
        trivial }

/-- A packet is fetched. -/
theorem Sound.fetch {s : Session} (h : s.Sound) {pkt : Packet} {connection : Nat}
    {rest : List (Packet × Nat)} (hbefore : s.client.packets = [])
    (hqueue : s.packetQueue = (pkt, connection) :: rest) :
    Sound { s with packetQueue := rest, client := .fetched pkt connection } where
  loggedIn := h.loggedIn
  packets := by
    obtain ⟨earlier, now, heq, hrest⟩ := h.packets
    rw [hbefore, hqueue] at heq
    exact ⟨earlier, now, heq, hrest⟩
  streams := h.streams
  login := fun _ hlogin => hlogin.elim
  connecting := fun hc => hc.elim
  connected := fun hc => hc.elim
  offline := by
    intro hoffline
    obtain ⟨hsettled, hrest⟩ := h.offline (.inr (hoffline.resolve_left id))
    refine ⟨⟨fun p hp => hsettled.packets p ?_, hsettled.streams, fun _ => id⟩, hrest⟩
    rw [hbefore, hqueue]
    exact hp
  running := h.running
  receiving := h.receiving

/-- Only a packet of the open connection may complete the document of a request. -/
theorem Sound.answers {s : Session} (h : s.Sound) {pkt : Packet} {connection : Nat}
    (hclient : s.client = .fetched pkt connection) (hanswers : s.Answers pkt) :
    s.isOpen = true ∧ ∀ c, s.From pkt connection c → c = s.connection := by
  obtain ⟨earlier, now, heq, htype, hstreams, hnow⟩ := h.packets
  rw [hclient] at heq
  have hmem : (pkt, connection) ∈ now := by
    cases earlier with
    | nil =>
      rw [List.nil_append] at heq
      rw [← heq]
      exact List.mem_cons_self ..
    | cons p earlier =>
      -- what is left of an earlier connection answers nothing
      obtain ⟨rfl, -⟩ := List.cons.inj heq
      rcases hanswers with hrequest | ⟨r, hfind⟩
      · exact absurd hrequest (htype _ (List.mem_cons_self ..))
      · exact absurd hfind (hstreams (List.cons_ne_nil _ _) _ r)
  obtain ⟨hopen, hconnection⟩ := hnow _ hmem
  refine ⟨hopen, fun c hc => ?_⟩
  rcases hc with rfl | ⟨⟨r, hfind⟩, hc⟩
  · exact hconnection
  · exact (h.streams _ r hfind).2 c hc

/-- A packet is processed. -/
theorem Sound.take {s : Session} (h : s.Sound) {pkt : Packet} {connection : Nat}
    {streamReceivers : StreamReceivers} {arrivals : UInt32 → List Nat} {client : ClientThread}
    (hclient : s.client = .fetched pkt connection)
    (htook : s.Took pkt connection streamReceivers arrivals client) :
    Sound
      { s with
        streamReceivers := streamReceivers
        arrivals := arrivals
        client := client } where
  loggedIn := h.loggedIn
  packets := by
    obtain ⟨earlier, now, heq, htype, hstreams, hnow⟩ := h.packets
    rw [hclient] at heq
    unfold Ordered
    dsimp only
    rw [htook.packets]
    cases earlier with
    | nil =>
      refine ⟨[], s.packetQueue, rfl, by simp, by simp, fun p hp => hnow p ?_⟩
      rw [List.nil_append] at heq
      rw [← heq]
      exact List.mem_cons_of_mem _ hp
    | cons p earlier =>
      -- it is left of an earlier connection, so it begins no stream of a request
      obtain ⟨rfl, hqueue⟩ := List.cons.inj heq
      refine ⟨earlier, now, hqueue, fun p hp => htype p (List.mem_cons_of_mem _ hp), ?_, hnow⟩
      intro _ id r hfind
      have hnone := hstreams (List.cons_ne_nil _ _)
      rcases htook.streams id r hfind with ⟨hold, -⟩ | ⟨hrequest | ⟨q, hq⟩, -⟩
      · exact hnone id r hold
      · exact htype _ (List.mem_cons_self ..) hrequest
      · exact hnone _ q hq
  streams := by
    intro id r hfind
    rcases htook.streams id r hfind with ⟨hold, harrivals⟩ | ⟨hanswers, hfrom⟩
    · obtain ⟨hopen, hconnection⟩ := h.streams id r hold
      exact ⟨hopen, fun c hc => hconnection c (harrivals ▸ hc)⟩
    · -- the stream of this packet, which came on the open connection
      obtain ⟨hopen, hconnection⟩ := h.answers hclient hanswers
      exact ⟨hopen, fun c hc => hconnection c (hfrom c hc)⟩
  login := by
    intro arrival hlogin
    obtain ⟨hanswers, hlast, hearlier⟩ := htook.login arrival hlogin
    obtain ⟨hopen, hconnection⟩ := h.answers hclient hanswers
    exact ⟨hopen, hlast.trans (hconnection _ (.inl rfl)),
      fun c hc => hconnection c (hearlier c hc)⟩
  connecting := fun hc => absurd hc htook.connecting
  connected := fun hc => absurd hc.connecting htook.connecting
  offline := by
    intro hoffline
    obtain ⟨hsettled, hrest⟩ := h.offline (.inr (hoffline.resolve_left htook.connecting))
    -- without a connection nothing is left that it could complete
    have hnot : ¬ s.Answers pkt := by
      rintro (hrequest | ⟨r, hfind⟩)
      · refine hsettled.packets (pkt, connection) ?_ hrequest
        rw [hclient]
        exact List.mem_cons_self ..
      · exact hsettled.streams _ r hfind
    refine ⟨⟨fun p hp => ?_, fun id r hfind => ?_, fun a hlogin => ?_⟩, hrest⟩
    · dsimp only at hp
      rw [htook.packets] at hp
      exact hsettled.packets p (List.mem_append_right _ hp)
    · rcases htook.streams id r hfind with ⟨hold, -⟩ | ⟨hanswers, -⟩
      · exact hsettled.streams id r hold
      · exact hnot hanswers
    · exact hnot (htook.login a hlogin).1
  running := h.running
  receiving := h.receiving

/-- A response to anything else does not authenticate. -/
theorem processResponse_cases (request : Request) (response : Ubj.Object) (status : Status) :
    (request.type = .login ∧ intField response (lit "status") = 1
        ∧ processResponse request response status = .authenticated)
      ∨ (¬ (request.type = .login ∧ intField response (lit "status") = 1)
        ∧ (processResponse request response status = status
          ∨ processResponse request response status = .secure)) := by
  unfold processResponse
  by_cases hone : intField response (lit "status") = 1
  · cases htype : request.type with
    | login => exact .inl ⟨rfl, hone, if_pos hone⟩
    | logout => exact .inr ⟨fun h => (by cases h.1), .inr (if_pos hone)⟩
    | _ => exact .inr ⟨fun h => (by cases h.1), .inl rfl⟩
  · refine .inr ⟨fun h => hone h.2, .inl ?_⟩
    cases request.type with
    | login => exact if_neg hone
    | logout => exact if_neg hone
    | _ => rfl

/-- A status is set that is one with a connection. -/
theorem Sound.setStatus {s : Session} (h : s.Sound) {status : Status} {logins : List Arrival}
    (hclient : ¬ s.client.Connecting) (hstarted : status ≠ .started)
    (hdisconnected : status ≠ .disconnected)
    (hlogin : status = .authenticated → s.isOpen = true ∧ ∃ a ∈ logins, a.On s.connection) :
    Sound { s with status := status, logins := logins } :=
  { h with
    loggedIn := hlogin
    connecting := fun hc => absurd hc hclient
    connected := fun hc => absurd hc.connecting hclient
    offline := fun hoffline => by
      rcases hoffline with hc | hs | hs
      · exact absurd hc hclient
      · exact absurd hs hstarted
      · exact absurd hs hdisconnected }

/-- A response is processed. -/
theorem Sound.respond {s : Session} (h : s.Sound) {request : Request} {response : Ubj.Object}
    {arrival : Arrival} (hclient : s.client = .found request response arrival) :
    Sound (s.respond request response arrival) := by
  have hnone : s.client.packets = [] := by rw [hclient]; rfl
  have hgoes : Sound { s with client := .responded request } :=
    @Sound.goes s h _ s.requests hnone rfl (fun _ => id) id
  unfold Session.respond
  rcases processResponse_cases request response s.status with
    ⟨htype, hone, hstatus⟩ | ⟨hother, hsame | hsecure⟩
  · -- a login: its response was received on the open connection
    have hlogin := h.login arrival (by rw [hclient]; exact ⟨rfl, htype, hone⟩)
    rw [hstatus, if_pos ⟨htype, hone⟩]
    exact hgoes.setStatus id (fun hs => by cases hs) (fun hs => by cases hs)
      (fun _ => ⟨hlogin.1, arrival, List.mem_cons_self .., hlogin.2⟩)
  · rw [hsame, if_neg hother]
    exact hgoes
  · rw [hsecure, if_neg hother]
    exact hgoes.setStatus id (fun hs => by cases hs) (fun hs => by cases hs)
      (fun hs => by cases hs)

/-! ## The receiver thread -/

/-- The receiver thread is only moved while the client is connected. -/
theorem Sound.not_offline {s : Session} (h : s.Sound)
    (hat : s.suspended = false ∨ s.receiver ≠ .top) : ¬ s.Offline := by
  intro hoffline
  obtain ⟨-, hsuspended, hreceiver⟩ := h.offline hoffline
  rcases hat with hrunning | hmoved
  · exact absurd (hrunning.symm.trans hsuspended) Bool.false_ne_true
  · exact hmoved hreceiver

/-- It goes on. -/
theorem Sound.receiver {s : Session} (h : s.Sound) {receiver : ReceiverThread} {suspended : Bool}
    (hat : s.suspended = false ∨ s.receiver ≠ .top)
    (hrunning : suspended = false → s.suspended = false)
    (hreceiving : Receiving { s with receiver := receiver, suspended := suspended }) :
    Sound { s with receiver := receiver, suspended := suspended } :=
  { h with
    offline := fun hoffline => absurd hoffline (h.not_offline hat)
    running := fun hs => h.running (hrunning hs)
    receiving := hreceiving }

/-- A packet is queued. -/
theorem Sound.queue {s : Session} (h : s.Sound) {pkt : Packet} {connection : Nat}
    (hbefore : s.receiver = .received pkt connection) :
    Sound
      { s with
        packetQueue := s.packetQueue ++ [(pkt, connection)]
        receiver := .top } := by
  have hreceiving := h.receiving
  unfold Receiving at hreceiving
  rw [hbefore] at hreceiving
  obtain ⟨hsuspended, hconnection⟩ := hreceiving
  have hpackets : Ordered
      { s with
        packetQueue := s.packetQueue ++ [(pkt, connection)]
        receiver := .top } := by
    obtain ⟨earlier, now, heq, htype, hstreams, hnow⟩ := h.packets
    refine ⟨earlier, now ++ [(pkt, connection)], ?_, htype, hstreams, fun p hp => ?_⟩
    · dsimp only
      rw [← List.append_assoc, heq, List.append_assoc]
    · rcases List.mem_append.mp hp with hp | hp
      · exact hnow p hp
      · obtain rfl := List.mem_singleton.mp hp
        exact ⟨h.running hsuspended, hconnection⟩
  exact
    { h with
      packets := hpackets
      offline := fun hoffline => absurd hoffline (h.not_offline (.inl hsuspended))
      receiving := trivial }

/-- The socket is closed. -/
theorem Sound.close {s : Session} (h : s.Sound) (hbefore : s.receiver = .disconnecting)
    (hstatus : s.status ≠ .authenticated) (hsettled : s.Settled) :
    Sound { s with isOpen := false, receiver := .closed } := by
  have hsuspended : s.suspended = true := by
    have hreceiving := h.receiving
    unfold Receiving at hreceiving
    rw [hbefore] at hreceiving
    exact hreceiving
  have hnot : ¬ s.Offline := h.not_offline (.inr (by rw [hbefore]; exact fun h => by cases h))
  have hafter : Settled { s with isOpen := false, receiver := .closed } :=
    ⟨hsettled.packets, hsettled.streams, hsettled.login⟩
  exact
    { loggedIn := fun hauth => absurd hauth hstatus
      packets := hafter.ordered
      streams := fun id r hfind => absurd hfind (hsettled.streams id r)
      login := fun arrival hlogin => absurd hlogin (hsettled.login arrival)
      connecting := h.connecting
      connected := fun hc => absurd (.inl hc.connecting) hnot
      offline := fun hoffline => absurd hoffline hnot
      running := fun hs => absurd (hs.symm.trans hsuspended) Bool.false_ne_true
      receiving := ⟨hsuspended, rfl⟩ }

/-- And then the status is set. -/
theorem Sound.disconnect {s : Session} (h : s.Sound) (hbefore : s.receiver = .closed) :
    Sound { s with status := .disconnected, receiver := .top } := by
  have hreceiving := h.receiving
  unfold Receiving at hreceiving
  rw [hbefore] at hreceiving
  obtain ⟨hsuspended, hclosed⟩ := hreceiving
  have hnot : ¬ s.Offline := h.not_offline (.inr (by rw [hbefore]; exact fun h => by cases h))
  -- the client may go on to connect again, so what is left must not answer anything
  have hsettled := h.settled hclosed
  exact
    { h with
      loggedIn := fun hauth => by cases hauth
      connecting := fun _ hauth => by cases hauth
      connected := fun hc => absurd (.inl hc.connecting) hnot
      offline := fun _ => ⟨⟨hsettled.packets, hsettled.streams, hsettled.login⟩, hsuspended, rfl⟩
      receiving := trivial }

/-- **Every step keeps it**, if connections are closed quietly. -/
theorem sound_step (s : Session) (e : SessionEvent) (s' : Session) (h : s.Sound)
    (hgood : s.ClosedQuietly e) (hstep : step aes_encrypt read behind s e = some s') :
    s'.Sound := by
  cases moves_of_step hstep with
  | goes hbefore hpackets hlogin hconnecting => exact h.goes hbefore hpackets hlogin hconnecting
  | reconnects hstatus hbefore =>
    have hnot : s.status ≠ .authenticated := by
      rcases hstatus with hs | hs
      · exact fun hauth => by cases hs.symm.trans hauth
      · exact fun hauth => by cases hs.symm.trans hauth
    exact h.connects (.inr hstatus) trivial hnot (fun hc => hc.elim)
  | connects hbefore hconnecting hstatus hconnected =>
    refine h.connects (.inl hbefore) hconnecting ?_ hconnected
    rcases hstatus with rfl | hstatus
    · exact h.connecting hbefore
    · exact hstatus
  | connected hbefore => exact h.connect hbefore
  | resumes hbefore => exact h.resume hbefore
  | fetches hbefore hqueue => exact h.fetch hbefore hqueue
  | takes hbefore htook => exact h.take hbefore htook
  | responds hbefore => exact h.respond hbefore
  | reads hsuspended => exact h.receiver (.inl hsuspended) id hsuspended
  | receives pkt hbefore =>
    have hsuspended : s.suspended = false := by
      have hreceiving := h.receiving
      unfold Receiving at hreceiving
      rw [hbefore] at hreceiving
      exact hreceiving
    exact h.receiver (.inl hsuspended) id ⟨hsuspended, rfl⟩
  | fails hbefore =>
    exact h.receiver (.inr (by rw [hbefore]; exact fun h => by cases h)) (fun hs => by cases hs) rfl
  | queues hbefore => exact h.queue hbefore
  | closes hbefore => exact h.close hbefore hgood.1 hgood.2
  | ends hbefore => exact h.disconnect hbefore
  | posts requests =>
    refine { h with offline := fun hoffline => ?_ }
    obtain ⟨hsettled, hrest⟩ := h.offline hoffline
    exact ⟨⟨hsettled.packets, hsettled.streams, hsettled.login⟩, hrest⟩

/-- **The status is right** in every run in which connections are closed quietly. (After a packet
without a body that a receiver takes, the source has crashed.) -/
theorem loggedIn_of_closedQuietly (aes_encrypt : Bytes → Bytes → Bytes)
    (read : Ubj.Value → Bytes → Bool × Ubj.Value) (behind : Nat → UInt8)
    (es : List SessionEvent) (s : Session)
    (hmeets : Steps.Meets (step aes_encrypt read behind) ClosedQuietly init es)
    (hrun : Steps.run (step aes_encrypt read behind) init es = some s) : s.LoggedIn :=
  (Steps.run_invariant_of_meets sound_step sound_init hmeets hrun).loggedIn

/-- A socket that is closed while the client is authenticated leaves it so. -/
theorem not_loggedIn_of_close {s s' : Session} (hstatus : s.status = .authenticated)
    (hstep : step aes_encrypt read behind s .close = some s') : ¬ s'.LoggedIn := by
  intro h
  unfold step at hstep
  dsimp only at hstep
  split at hstep
  · obtain rfl := Option.some.inj hstep
    obtain ⟨hopen, -⟩ := h hstatus
    cases hopen
  · cases hstep

/-! ## A login -/

/-- A document in one packet that answers a request. -/
theorem processIncomingPacket_single {s : Session} {sender : BufferSender} {request : Request}
    {response : Ubj.Object} (hpost : Link.Postable read sender) (hone : sender.parts.toNat = 1)
    (hdocument : sender.sub.data = Ubj.Writer.write (.object response))
    (hread : read .null (Ubj.Writer.write (.object response)) = (true, .object response))
    (hnew : OrdMap.find? s.streamReceivers sender.id = none)
    (hrequest : s.answered response = some request) (connection : Nat) :
    ∃ streamReceivers arrivals,
      s.processIncomingPacket aes_encrypt read behind none (sender.packet 0) connection =
        { s with
          streamReceivers := streamReceivers
          arrivals := arrivals
          client := .found request response ⟨connection, []⟩ } := by
  have hat := hpost.at_zero
  obtain ⟨r, accesses, hprocess, -, hstatus, hsub⟩ := @UbjReceiver.process_last read behind sender
    0 0 _ hat (BufferReceiver.init_holds hat .null) hone.symm
  have hcreate : createStreamReceiver none (sender.packet 0)
      = some (.request (UbjReceiver.create (sender.packet 0))) := by
    have htype : (sender.packet 0).head.streamType = Packet.Request := hpost.fields.1
    unfold createStreamReceiver
    rw [htype, if_neg (by decide), if_pos rfl]
  have hprocessed : (StreamReceiver.request (UbjReceiver.create (sender.packet 0))).process
      aes_encrypt read behind (sender.packet 0) = ⟨true, .request r, true⟩ := by
    show StreamReceiver.Processed.mk (UbjReceiver.process ..).ok
      (.request (UbjReceiver.process ..).receiver) (UbjReceiver.process ..).invoked = _
    rw [show UbjReceiver.process read behind (UbjReceiver.create (sender.packet 0))
      (sender.packet 0) = ⟨true, r, accesses, true⟩ from hprocess]
  have hanswered : ∀ streamReceivers arrivals,
      answered { s with streamReceivers := streamReceivers, arrivals := arrivals } response
        = some request := fun _ _ => hrequest
  have hdoc : r.sub = .object response := by
    rw [hsub, hdocument]
    exact congrArg Prod.snd hread
  unfold processIncomingPacket
  rw [show OrdMap.find? s.streamReceivers (sender.packet 0).head.streamId = none from hnew]
  dsimp only
  rw [hcreate]
  unfold processReceiver
  dsimp only
  rw [hprocessed]
  dsimp only
  rw [if_pos ⟨rfl, hstatus⟩, hdoc]
  dsimp only [Ubj.Value.toObject]
  rw [hanswered]
  exact ⟨_, _, rfl⟩

/-- The response to a login with id 5. -/
def loginResponse : Ubj.Object := [(lit "requestId", .int32 5), (lit "status", .int32 1)]

/-- It comes in one packet. -/
def loginSender : BufferSender := UbjSender.create 7 Packet.Request (.object loginResponse)

theorem read_loginResponse :
    Ubj.Value.read ⟨0, fun _ => 0⟩ 60 .null (Ubj.Writer.write (.object loginResponse))
      = (true, .object loginResponse) := by
  have hv : Ubj.RoundTrip (.object loginResponse) := by
    refine .object (by decide) (.cons (by unfold Ubj.Carried; decide) (.int32 5) ?_)
    exact .cons (by unfold Ubj.Carried; decide) (.int32 1) .nil
  obtain ⟨hwrite, hshort⟩ := Ubj.write_eq_encode hv rfl (by decide) (by decide)
  have hread := Ubj.read_encode hv rfl hshort ⟨0, fun _ => 0⟩ .null [] (show _ ≤ 60 by decide)
  unfold Ubj.Value.read
  rw [hwrite, ← List.append_nil (Ubj.encode _), hread]

/-- Its packet is processed. -/
theorem step_loginSender {s : Session} {connection : Nat}
    (hclient : s.client = .fetched (loginSender.packet 0) connection)
    (hnew : s.streamReceivers = []) (hrequest : s.answered loginResponse = some ⟨.login, 5, 20⟩) :
    ∃ streamReceivers arrivals, step aes_encrypt (Ubj.Value.read ⟨0, fun _ => 0⟩ 60) behind s
        (.processIncomingPacket none) = some
          { s with
            streamReceivers := streamReceivers
            arrivals := arrivals
            client := .found ⟨.login, 5, 20⟩ loginResponse ⟨connection, []⟩ } := by
  have hpost : Link.Postable (Ubj.Value.read ⟨0, fun _ => 0⟩ 60) loginSender :=
    ⟨by decide, .object loginResponse, rfl, by decide, by decide, read_loginResponse⟩
  obtain ⟨streamReceivers, arrivals, heq⟩ := @processIncomingPacket_single aes_encrypt _ behind s
    loginSender _ _ hpost (by decide) rfl read_loginResponse (by rw [hnew]; rfl) hrequest
    connection
  refine ⟨streamReceivers, arrivals, ?_⟩
  unfold step
  dsimp only
  rw [hclient]
  exact congrArg some heq

/-- And then the response. -/
theorem run_loginSender {s : Session} {connection : Nat}
    (hclient : s.client = .fetched (loginSender.packet 0) connection)
    (hnew : s.streamReceivers = []) (hrequest : s.answered loginResponse = some ⟨.login, 5, 20⟩) :
    ∃ streamReceivers arrivals,
      Steps.run (step aes_encrypt (Ubj.Value.read ⟨0, fun _ => 0⟩ 60) behind) s
          [.processIncomingPacket none, .processResponse] = some
        { s with
          status := .authenticated
          streamReceivers := streamReceivers
          arrivals := arrivals
          client := .responded ⟨.login, 5, 20⟩
          logins := ⟨connection, []⟩ :: s.logins } := by
  obtain ⟨streamReceivers, arrivals, hstep⟩ :=
    @step_loginSender aes_encrypt behind s connection hclient hnew hrequest
  exact ⟨streamReceivers, arrivals, Steps.run_cons_eq_some.mpr ⟨_, hstep, rfl⟩⟩

/-- The client connects and requests a login, and the response is received. -/
def loginReceived : List SessionEvent :=
  [.look, .connect, .connected, .secure, .resume, .login (some 5), .readable,
    .recvPacket (loginSender.packet 0), .pushBack]

/-- The response is about to be processed. -/
def loginFetched (connection : Nat) : Session :=
  { init with
    status := .secure
    connection := connection
    isOpen := true
    requests := [(5, ⟨.login, 5, 20⟩)]
    suspended := false
    client := .fetched (loginSender.packet 0) connection }

/-- A connection that breaks before anything has come in. -/
def brokenConnection : List SessionEvent :=
  [.look, .connect, .connected, .secure, .resume, .login none, .readable, .recvFails]

theorem closedQuietly_of_ne {s : Session} {e : SessionEvent} (h : e ≠ .close) :
    s.ClosedQuietly e := by
  cases e with
  | close => exact absurd rfl h
  | _ => trivial

/-- One connection breaks, and the response is processed on the next. -/
theorem loggedIn_of_closedQuietly_login :
    ∃ s, Steps.run (step (fun _ block => block) (Ubj.Value.read ⟨0, fun _ => 0⟩ 60) (fun _ => 0))
        init (brokenConnection ++ (.close :: .disconnected :: loginReceived ++
          [.look, .fetchPacket] ++ [.processIncomingPacket none, .processResponse])) = some s
      ∧ s.status = .authenticated ∧ s.connection = 2 ∧ s.LoggedIn := by
  have hbroken : Steps.run (step (fun _ block => block) (Ubj.Value.read ⟨0, fun _ => 0⟩ 60)
      (fun _ => 0)) init brokenConnection = some
        { init with
          status := .secure
          connection := 1
          isOpen := true
          receiver := .disconnecting } := rfl
  have hstart : Steps.run (step (fun _ block => block) (Ubj.Value.read ⟨0, fun _ => 0⟩ 60)
      (fun _ => 0))
        { init with
          status := .secure
          connection := 1
          isOpen := true
          receiver := .disconnecting }
        (.close :: .disconnected :: loginReceived ++ [.look, .fetchPacket])
      = some (loginFetched 2) := rfl
  obtain ⟨streamReceivers, arrivals, hlogin⟩ := @run_loginSender (fun _ block => block)
    (fun _ => 0) (loginFetched 2) 2 rfl rfl rfl
  have hrun := Steps.run_append hbroken (Steps.run_append hstart hlogin)
  refine ⟨_, hrun, rfl, rfl, loggedIn_of_closedQuietly _ _ _ _ _ (Steps.Meets.append ?_ ?_) hrun⟩
  · exact Steps.meets_of_forall
      (fun e he s => closedQuietly_of_ne (by rintro rfl; simp [brokenConnection] at he))
  · intro s hs
    obtain rfl := Option.some.inj (hbroken.symm.trans hs)
    refine ⟨⟨fun h => (by cases h), ?_⟩, fun s' _ => Steps.meets_of_forall
      (fun e he s => closedQuietly_of_ne (by rintro rfl; simp [loginReceived] at he))⟩
    exact ⟨fun _ hp => (by cases hp), fun _ _ h => (by cases h), fun _ => id⟩

/-- The receiver thread disconnects after the response was fetched, and before it is processed. -/
theorem not_loggedIn_late :
    ∃ s, Steps.run (step (fun _ block => block) (Ubj.Value.read ⟨0, fun _ => 0⟩ 60) (fun _ => 0))
        init (loginReceived ++ [.readable, .look, .fetchPacket, .recvFails, .close, .disconnected]
          ++ [.processIncomingPacket none, .processResponse]) = some s
      ∧ ¬ s.LoggedIn := by
  have hstart : Steps.run (step (fun _ block => block) (Ubj.Value.read ⟨0, fun _ => 0⟩ 60)
      (fun _ => 0)) init (loginReceived ++ [.readable, .look, .fetchPacket, .recvFails, .close,
        .disconnected]) = some
        { loginFetched 1 with
          status := .disconnected
          isOpen := false
          suspended := true } := rfl
  obtain ⟨streamReceivers, arrivals, hlogin⟩ := @run_loginSender (fun _ block => block)
    (fun _ => 0)
    { loginFetched 1 with
      status := .disconnected
      isOpen := false
      suspended := true } 1 rfl rfl rfl
  have hrun := Steps.run_append hstart hlogin
  refine ⟨_, hrun, fun h => ?_⟩
  obtain ⟨hopen, -⟩ := h rfl
  cases hopen

end Zway.Client.Session
