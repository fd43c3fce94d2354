import Zway.Stream.Partial

/-!
# The end of the stream

When the peer has closed the connection, the socket stays readable and
`gnutls_record_recv` returns 0. That is not a fatal error and not a number of bytes, so
`Client::recv` asks again, for good: it returns only if it does not get that far.

The transport is a list of answers here, and its end is the end of the stream. The loop is
run for a number of rounds, and what it does is a transfer as in `Client.recv`
(`recvRounds_recv`).
-/

namespace Zway

open Transfer (Event)

namespace Client

/-- An answer of the transport before the end of the stream. -/
inductive Answer where
  /-- Some bytes for `gnutls_record_recv`, which leaves there what it is not asked for. -/
  | data (bytes : Bytes)
  /-- An error that is not fatal. -/
  | again
  /-- The socket is not readable in time. -/
  | timeout
  deriving Repr, DecidableEq

/-- The bytes of an answer. -/
def Answer.bytes : Answer → Bytes
  | .data bs => bs
  | .again => []
  | .timeout => []

/-- The bytes that come before the end of the stream. -/
def arriving (as : List Answer) : Bytes := as.flatMap Answer.bytes

/-- `Client::recv` in its loop. -/
structure Reading where
  s : UInt32
  /-- The bytes it wrote to `data`. -/
  data : Bytes
  answers : List Answer

/-- One round of the loop. At the end of the stream `ret` is 0, and nothing changes. -/
def round (size : UInt32) (r : Reading) : Reading :=
  match r.answers with
  | [] => r
  | .again :: as => { r with answers := as }
  | .timeout :: as => { r with answers := as }
  | .data bs :: as =>
      let ret := min bs.length (size - r.s).toNat
      { s := r.s + UInt32.ofNat ret
        data := r.data ++ bs.take ret
        answers := if ret < bs.length then .data (bs.drop ret) :: as else as }

/-- So many rounds of the loop, if that is enough. -/
def recvRounds (size : UInt32) : Nat → Reading → Option Reading
  | 0, r => if r.s < size then none else some r
  | fuel + 1, r => if r.s < size then recvRounds size fuel (round size r) else some r

/-- `Client::recv`: the return value, the bytes and what is left of the answers. -/
def recvWithin (fuel : Nat) (size : UInt32) (as : List Answer) : Option (UInt32 × Bytes × List Answer) :=
  (recvRounds size fuel ⟨0, [], as⟩).map fun r => (r.s, r.data, r.answers)

/-- The count is the number of bytes, and no byte is lost. -/
structure Reading.Of (size : UInt32) (total : Bytes) (r : Reading) : Prop where
  count : r.s.toNat = r.data.length
  le : r.data.length ≤ size.toNat
  bytes : r.data ++ arriving r.answers = total

theorem arriving_cons (a : Answer) (as : List Answer) : arriving (a :: as) = a.bytes ++ arriving as :=
  List.flatMap_cons

/-- What a round leaves of an answer. -/
theorem arriving_rest (bs : Bytes) (ret : Nat) (as : List Answer) :
    arriving (if ret < bs.length then .data (bs.drop ret) :: as else as)
      = bs.drop ret ++ arriving as := by
  split
  · exact arriving_cons ..
  · rw [List.drop_of_length_le (by omega), List.nil_append]

section

variable {size : UInt32} {total : Bytes} {r : Reading}

theorem Reading.Of.lt_iff (h : r.Of size total) : r.s < size ↔ r.data.length < size.toNat := by
  rw [UInt32.lt_iff_toNat_lt, h.count]

/-- What a round does with some bytes. -/
theorem Reading.Of.take (h : r.Of size total) (hlt : r.s < size) (bs : Bytes) :
    (r.s + UInt32.ofNat (min bs.length (size - r.s).toNat)).toNat
        = r.data.length + min bs.length (size.toNat - r.data.length) ∧
      (size - r.s).toNat = size.toNat - r.data.length := by
  have hsub : (size - r.s).toNat = size.toNat - r.data.length := by
    rw [UInt32.toNat_sub_of_le _ _ (UInt32.le_of_lt hlt), h.count]
  have hlen := h.lt_iff.mp hlt
  have hsize := size.toNat_lt
  refine ⟨?_, hsub⟩
  rw [hsub, UInt32.toNat_add, UInt32.toNat_ofNat', h.count]
  omega

theorem Reading.Of.round (h : r.Of size total) (hlt : r.s < size) : (round size r).Of size total := by
  obtain ⟨s, data, answers⟩ := r
  have hbytes := h.bytes
  have hlen := h.lt_iff.mp hlt
  cases answers with
  | nil => exact h
  | cons a as =>
    rw [arriving_cons] at hbytes
    cases a with
    | again => exact ⟨h.count, h.le, hbytes⟩
    | timeout => exact ⟨h.count, h.le, hbytes⟩
    | data bs =>
      obtain ⟨hcount, hsub⟩ := h.take hlt bs
      unfold Client.round
      dsimp only at hcount hsub hlen ⊢
      have htake : (data ++ bs.take (min bs.length (size - s).toNat)).length
          = data.length + min bs.length (size.toNat - data.length) := by
        rw [List.length_append, List.length_take, hsub]
        omega
      refine ⟨hcount.trans htake.symm, ?_, ?_⟩
      · dsimp only
        omega
      · dsimp only
        rw [arriving_rest, List.append_assoc, ← List.append_assoc (bs.take _), List.take_append_drop]
        exact hbytes

/-- A call that has its bytes. -/
theorem recvRounds_of_not_lt (h : ¬ r.s < size) (fuel : Nat) : recvRounds size fuel r = some r := by
  cases fuel with
  | zero => exact if_neg h
  | succ fuel => exact if_neg h

/-- More rounds change nothing. -/
theorem recvRounds_mono {fuel fuel' : Nat} {r' : Reading} (h : recvRounds size fuel r = some r')
    (hle : fuel ≤ fuel') : recvRounds size fuel' r = some r' := by
  induction fuel generalizing r fuel' with
  | zero =>
    rw [recvRounds] at h
    split at h
    · cases h
    · rename_i hdone
      obtain rfl := Option.some.inj h
      exact recvRounds_of_not_lt hdone fuel'
  | succ fuel ih =>
    obtain ⟨fuel', rfl⟩ : ∃ k, fuel' = k + 1 := ⟨fuel' - 1, by omega⟩
    rw [recvRounds] at h ⊢
    split at h
    · rename_i hlt
      rw [if_pos hlt]
      exact ih h (by omega)
    · rename_i hdone
      rw [if_neg hdone]
      exact h

/-- **With too few bytes the loop goes on for good.** -/
theorem recvRounds_none (h : r.Of size total) (hfew : total.length < size.toNat) (fuel : Nat) :
    recvRounds size fuel r = none := by
  induction fuel generalizing r with
  | zero =>
    have hlen := congrArg List.length h.bytes
    rw [List.length_append] at hlen
    exact if_pos (h.lt_iff.mpr (by omega))
  | succ fuel ih =>
    have hlen := congrArg List.length h.bytes
    rw [List.length_append] at hlen
    have hlt : r.s < size := h.lt_iff.mpr (by omega)
    rw [recvRounds, if_pos hlt]
    exact ih (h.round hlt)

/-- With enough bytes it takes the first ones, in at most one round for each answer. -/
theorem recvRounds_some (h : r.Of size total) (hmany : size.toNat ≤ total.length) {fuel : Nat}
    (hfuel : r.answers.length ≤ fuel) :
    ∃ r', recvRounds size fuel r = some r' ∧ r'.s = size ∧ r'.data = total.take size.toNat ∧
      arriving r'.answers = total.drop size.toNat ∧ r'.answers.length ≤ r.answers.length := by
  induction fuel generalizing r with
  | zero =>
    -- no answers are left, so all the bytes are there
    have hnil : r.answers = [] := List.eq_nil_of_length_eq_zero (Nat.le_zero.mp hfuel)
    have hbytes := h.bytes
    rw [hnil] at hbytes
    have hdata : r.data = total := (List.append_nil _).symm.trans hbytes
    have hle := h.le
    have hdone : ¬ r.s < size := by
      rw [h.lt_iff, hdata]
      omega
    refine ⟨r, recvRounds_of_not_lt hdone 0, ?_, ?_, ?_, Nat.le_refl _⟩
    · rw [← UInt32.toNat_inj, h.count, hdata]
      rw [hdata] at hle
      omega
    · rw [hdata, List.take_of_length_le (by rw [← hdata]; exact hle)]
    · rw [hnil, List.drop_of_length_le (by rw [← hdata]; exact hle)]
      rfl
  | succ fuel ih =>
    by_cases hlt : r.s < size
    · have hnext := h.round hlt
      have hlen := h.lt_iff.mp hlt
      rw [recvRounds, if_pos hlt]
      -- either an answer is used up, or this is the last round
      by_cases hdone : (round size r).s < size
      · have hshort : (round size r).answers.length + 1 ≤ r.answers.length := by
          obtain ⟨s, data, answers⟩ := r
          have hbytes := congrArg List.length h.bytes
          rw [List.length_append] at hbytes
          cases answers with
          | nil =>
            change data.length + 0 = _ at hbytes
            dsimp only at hlen
            omega
          | cons a as =>
            cases a with
            | again => exact Nat.le_refl _
            | timeout => exact Nat.le_refl _
            | data bs =>
              obtain ⟨hcount, hsub⟩ := h.take hlt bs
              rw [UInt32.lt_iff_toNat_lt] at hdone
              unfold round at hdone ⊢
              dsimp only at hdone hcount hsub ⊢
              rw [hcount] at hdone
              rw [hsub, if_neg (by omega)]
              exact Nat.le_refl _
        obtain ⟨r', hr', hs, hdata, hrest, hle⟩ := ih hnext (by omega)
        exact ⟨r', hr', hs, hdata, hrest, by omega⟩
      · have hs : (round size r).s = size := by
          rw [← UInt32.toNat_inj]
          have hle := hnext.le
          rw [hnext.lt_iff] at hdone
          rw [hnext.count]
          omega
        have hcount := hnext.count
        rw [hs] at hcount
        refine ⟨_, recvRounds_of_not_lt hdone fuel, hs, ?_, ?_, ?_⟩
        · rw [← hnext.bytes, hcount, List.take_left]
        · rw [← hnext.bytes, hcount, List.drop_left]
        · unfold round
          split
          · exact Nat.le_refl _
          · rename_i hanswers
            rw [hanswers]
            exact Nat.le_succ _
          · rename_i hanswers
            rw [hanswers]
            exact Nat.le_succ _
          · rename_i hanswers
            rw [hanswers]
            dsimp only
            split
            · exact Nat.le_refl _
            · exact Nat.le_succ _
    · have hle := h.le
      rw [h.lt_iff] at hlt
      have hcount : r.data.length = size.toNat := by omega
      refine ⟨r, recvRounds_of_not_lt (by rw [h.lt_iff]; exact hlt) _, ?_, ?_, ?_, Nat.le_refl _⟩
      · rw [← UInt32.toNat_inj, h.count, hcount]
      · rw [← h.bytes, ← hcount, List.take_left]
      · rw [← h.bytes, ← hcount, List.drop_left]

/-- **What the loop does is a transfer**, in which nothing fails and nobody cancels. -/
theorem recvRounds_recv {fuel : Nat} {r' : Reading} (h : recvRounds size fuel r = some r') :
    ∃ es, Transfer.Quiet es ∧
      recvLoop size es r.s r.data (arriving r.answers)
        = some ⟨r'.s, r'.data, arriving r'.answers, []⟩ := by
  induction fuel generalizing r with
  | zero =>
    rw [recvRounds] at h
    split at h
    · cases h
    · rename_i hdone
      obtain rfl := Option.some.inj h
      exact ⟨[], by decide, if_neg hdone⟩
  | succ fuel ih =>
    rw [recvRounds] at h
    split at h
    · rename_i hlt
      obtain ⟨es, hquiet, hloop⟩ := ih h
      have hcons : ∀ e : Event, e ≠ .canceled → e ≠ .failed → Transfer.Quiet (e :: es) := by
        intro e hcanceled hfailed
        refine ⟨fun hm => ?_, fun hm => ?_⟩
        · exact (List.mem_cons.mp hm).elim (fun he => hcanceled he.symm) hquiet.1
        · exact (List.mem_cons.mp hm).elim (fun he => hfailed he.symm) hquiet.2
      obtain ⟨s, data, answers⟩ := r
      cases answers with
      | nil =>
        -- the end of the stream moves nothing
        refine ⟨.moved 0 :: es, hcons _ (by decide) (by decide), (if_pos hlt).trans ?_⟩
        dsimp only
        rw [Nat.zero_min, List.take_zero, List.append_nil, List.drop_zero]
        exact (congrArg (fun n => recvLoop size es n _ _) (UInt32.add_zero s)).trans hloop
      | cons a as =>
        cases a with
        | again => exact ⟨.idle :: es, hcons _ (by decide) (by decide), (if_pos hlt).trans hloop⟩
        | timeout => exact ⟨.idle :: es, hcons _ (by decide) (by decide), (if_pos hlt).trans hloop⟩
        | data bs =>
          refine ⟨.moved bs.length :: es, hcons _ (by simp) (by simp), (if_pos hlt).trans ?_⟩
          unfold round at hloop
          dsimp only at hloop ⊢
          rw [arriving_rest] at hloop
          have hret : min bs.length (min (size - s).toNat (arriving (.data bs :: as)).length)
              = min bs.length (size - s).toNat := by
            rw [arriving_cons, List.length_append]
            show min bs.length (min _ (bs.length + _)) = _
            omega
          rw [hret, arriving_cons]
          show recvLoop size es _ (data ++ (bs ++ _).take _) ((bs ++ _).drop _) = _
          rw [List.take_append_of_le_length (Nat.min_le_left _ _),
            List.drop_append_of_le_length (Nat.min_le_left _ _)]
          exact hloop
    · rename_i hdone
      obtain rfl := Option.some.inj h
      exact ⟨[], by decide, if_neg hdone⟩

end

/-- `Client::recv` returns. -/
def RecvEnds (size : UInt32) (as : List Answer) : Prop := ∃ fuel res, recvWithin fuel size as = some res

theorem reading_start (size : UInt32) (as : List Answer) :
    Reading.Of size (arriving as) ⟨0, [], as⟩ :=
  ⟨rfl, Nat.zero_le _, rfl⟩

theorem recvWithin_none {size : UInt32} {as : List Answer} (h : (arriving as).length < size.toNat)
    (fuel : Nat) : recvWithin fuel size as = none := by
  unfold recvWithin
  rw [recvRounds_none (reading_start size as) h]
  rfl

theorem recvWithin_some {size : UInt32} {as : List Answer}
    (h : size.toNat ≤ (arriving as).length) {fuel : Nat} (hfuel : as.length ≤ fuel) :
    ∃ as', recvWithin fuel size as = some (size, (arriving as).take size.toNat, as') ∧
      arriving as' = (arriving as).drop size.toNat ∧ as'.length ≤ as.length := by
  obtain ⟨r, hr, hs, hdata, hrest, hle⟩ := recvRounds_some (reading_start size as) h hfuel
  refine ⟨r.answers, ?_, hrest, hle⟩
  unfold recvWithin
  rw [hr, ← hdata, ← hs]
  rfl

theorem recvWithin_mono {size : UInt32} {as : List Answer} {fuel fuel' : Nat}
    {res : UInt32 × Bytes × List Answer} (h : recvWithin fuel size as = some res)
    (hle : fuel ≤ fuel') : recvWithin fuel' size as = some res := by
  obtain ⟨r, hr, hres⟩ := Option.map_eq_some_iff.mp h
  exact Option.map_eq_some_iff.mpr ⟨r, recvRounds_mono hr hle, hres⟩

/-- It returns if the bytes it asks for come before the end of the stream. -/
theorem recvEnds_iff {size : UInt32} {as : List Answer} :
    RecvEnds size as ↔ size.toNat ≤ (arriving as).length := by
  constructor
  · rintro ⟨fuel, res, h⟩
    by_contra hfew
    rw [recvWithin_none (by omega)] at h
    cases h
  · intro h
    obtain ⟨as', has, -⟩ := recvWithin_some h (Nat.le_refl _)
    exact ⟨_, _, has⟩

end Client

/-! ## Packets -/

namespace Receiver

open Client (Answer arriving)

/-- What `Receiver::recvPacket` leaves behind, over any transport. -/
structure Read (τ : Type) where
  res : UInt32
  pkt : Packet
  headRead : Nat
  bodyRead : Nat
  transport : τ

/-- All of the head and of the body was received. -/
def Read.Whole {τ : Type} (p : Read τ) : Prop :=
  p.headRead = 24 ∧ p.bodyRead = p.pkt.head.bodySize.toNat

/-- `Receiver::recvPacket` over a `Client::recv`. -/
def recvPacketWith {τ : Type} (recv : UInt32 → τ → Option (UInt32 × Bytes × τ)) (t : τ) :
    Option (Read τ) :=
  match recv 24 t with
  | none => none
  | some (r, head, t) =>
      let pkt : Packet := { head := headOf head, body := none }
      if r = 0 then some ⟨0, pkt, head.length, 0, t⟩
      else if r < 24 then some ⟨-1, pkt, head.length, 0, t⟩
      else if 0 < pkt.head.bodySize then
        if MAX_PACKET_BODY < pkt.head.bodySize then some ⟨-1, pkt, head.length, 0, t⟩
        else
          match recv pkt.head.bodySize t with
          | none => none
          | some (r', body, t) =>
              if r' < pkt.head.bodySize then some ⟨-1, pkt, head.length, body.length, t⟩
              else
                some ⟨r + r', pkt.setBody ((MemoryBuffer.create pkt.head.bodySize).blit body 0) 0,
                  head.length, body.length, t⟩
      else some ⟨r, pkt, head.length, 0, t⟩

/-- It is the `recvPacket` over events if its transport is one. -/
theorem recvPacket_eq_with (es : List Event) (incoming : Bytes) :
    recvPacket es incoming =
      (recvPacketWith (fun size t => (Client.recv size t.1 t.2).map fun r =>
        (r.res, r.data, (r.events, r.incoming))) (es, incoming)).map fun p =>
          ⟨p.res, p.pkt, p.headRead, p.bodyRead, p.transport.2, p.transport.1⟩ := by
  unfold recvPacket recvPacketWith
  dsimp only
  cases Client.recv 24 es incoming with
  | none => rfl
  | some h =>
    dsimp only [Option.map_some]
    split
    · rfl
    split
    · rfl
    split
    · split
      · rfl
      · cases Client.recv (headOf h.data).bodySize h.events h.incoming with
        | none => rfl
        | some b =>
          dsimp only [Option.map_some]
          split <;> rfl
    · rfl

/-- `Receiver::recvPacket` where the stream ends after some answers. -/
def recvPacketWithin (fuel : Nat) (as : List Answer) : Option (Read (List Answer)) :=
  recvPacketWith (Client.recvWithin fuel) as

/-- `Receiver::recvPacket` returns, and what is not a whole packet has a result that is not
positive. -/
def ReportsEnd (as : List Answer) : Prop :=
  ∃ fuel p, recvPacketWithin fuel as = some p ∧ (p.Whole ∨ ¬ Queued p.res)

/-- A whole packet comes before the end of the stream, or a head whose body is too large. -/
def HoldsPacket (bs : Bytes) : Prop :=
  24 ≤ bs.length ∧ (MAX_PACKET_BODY < (headOf (bs.take 24)).bodySize ∨
    24 + (headOf (bs.take 24)).bodySize.toNat ≤ bs.length)

instance (bs : Bytes) : Decidable (HoldsPacket bs) :=
  inferInstanceAs (Decidable (24 ≤ bs.length ∧ (MAX_PACKET_BODY < (headOf (bs.take 24)).bodySize ∨
    24 + (headOf (bs.take 24)).bodySize.toNat ≤ bs.length)))

section

variable {as : List Answer} {fuel : Nat}

/-- A call over a transport that goes further. -/
theorem recvPacketWith_mono {τ : Type} {recv recv' : UInt32 → τ → Option (UInt32 × Bytes × τ)}
    (h : ∀ size t res, recv size t = some res → recv' size t = some res) {t : τ} {p : Read τ}
    (hp : recvPacketWith recv t = some p) : recvPacketWith recv' t = some p := by
  unfold recvPacketWith at hp ⊢
  cases hhead : recv 24 t with
  | none =>
    rw [hhead] at hp
    cases hp
  | some res =>
    obtain ⟨r, head, t'⟩ := res
    rw [hhead] at hp
    rw [h _ _ _ hhead]
    dsimp only at hp ⊢
    cases hbody : recv (headOf head).bodySize t' with
    | none =>
      rw [hbody] at hp
      -- the body is asked for in one branch only, which has no result
      split at hp
      · rename_i hzero
        rw [if_pos hzero]
        exact hp
      · rename_i hzero
        rw [if_neg hzero]
        split at hp
        · rename_i hshort
          rw [if_pos hshort]
          exact hp
        · rename_i hshort
          rw [if_neg hshort]
          split at hp
          · rename_i hpos
            rw [if_pos hpos]
            split at hp
            · rename_i hlarge
              rw [if_pos hlarge]
              exact hp
            · cases hp
          · rename_i hpos
            rw [if_neg hpos]
            exact hp
    | some res =>
      rw [hbody] at hp
      rw [h _ _ _ hbody]
      exact hp

/-- Without a head the call does not return. -/
theorem recvPacketWithin_none (h : (arriving as).length < 24) (fuel : Nat) :
    recvPacketWithin fuel as = none := by
  unfold recvPacketWithin recvPacketWith
  rw [@Client.recvWithin_none 24 as h fuel]

/-- With a head it goes on with the body. -/
theorem recvPacketWithin_head (h : 24 ≤ (arriving as).length) (hfuel : as.length ≤ fuel) :
    ∃ as', arriving as' = (arriving as).drop 24 ∧ as'.length ≤ as.length ∧
      ∀ {size : UInt32}, (headOf ((arriving as).take 24)).bodySize = size →
        (size = 0 → ∃ p, recvPacketWithin fuel as = some p ∧ p.Whole) ∧
        (MAX_PACKET_BODY < size → ∃ p, recvPacketWithin fuel as = some p ∧ ¬ Queued p.res) ∧
        (0 < size → size ≤ MAX_PACKET_BODY → Client.recvWithin fuel size as' = none →
          recvPacketWithin fuel as = none) ∧
        (0 < size → size ≤ MAX_PACKET_BODY → ∀ body as'', body.length = size.toNat →
          Client.recvWithin fuel size as' = some (size, body, as'') →
          ∃ p, recvPacketWithin fuel as = some p ∧ p.Whole) := by
  obtain ⟨as', hrecv, hrest, hle⟩ := @Client.recvWithin_some 24 as h fuel hfuel
  have hlen : ((arriving as).take 24).length = 24 := by
    rw [List.length_take]
    exact Nat.min_eq_left h
  change Client.recvWithin fuel 24 as = some (24, (arriving as).take 24, as') at hrecv
  refine ⟨as', hrest, hle, ?_⟩
  rintro size rfl
  refine ⟨fun hzero => ?_, fun hlarge => ?_, fun hpos hsmall hbody => ?_,
    fun hpos hsmall body as'' hlen' hbody => ?_⟩ <;>
  unfold recvPacketWithin recvPacketWith <;>
  rw [hrecv] <;> dsimp only <;> rw [if_neg (by decide), if_neg (by decide)]
  · rw [if_neg (by rw [hzero]; decide)]
    refine ⟨_, rfl, hlen, ?_⟩
    show 0 = (headOf _).bodySize.toNat
    rw [hzero]
    rfl
  · rw [if_pos (UInt32.lt_trans (by decide) hlarge), if_pos hlarge]
    have hres : ¬ Queued (-1) := by decide
    exact ⟨_, rfl, hres⟩
  · rw [if_pos hpos, if_neg (UInt32.not_lt.mpr hsmall), hbody]
  · rw [if_pos hpos, if_neg (UInt32.not_lt.mpr hsmall), hbody]
    dsimp only
    rw [if_neg (UInt32.lt_irrefl _)]
    refine ⟨_, rfl, hlen, ?_⟩
    show body.length = (Packet.setBody _ _ 0).head.bodySize.toNat
    rw [Packet.setBody_bodySize, MemoryBuffer.blit_size, MemoryBuffer.create_size,
      UInt32.ofNat_toNat, hlen']

/-- **When `Receiver::recvPacket` notices the end of the stream**: where it does not get there. -/
theorem reportsEnd_iff : ReportsEnd as ↔ HoldsPacket (arriving as) := by
  by_cases hhead : 24 ≤ (arriving as).length
  · constructor
    · rintro ⟨fuel, p, hp, -⟩
      refine ⟨hhead, ?_⟩
      by_contra hno
      have hp' : recvPacketWithin (max fuel as.length) as = some p :=
        recvPacketWith_mono (fun _ _ _ hres => Client.recvWithin_mono hres (Nat.le_max_left ..)) hp
      obtain ⟨as', hrest, -, hsize⟩ := recvPacketWithin_head hhead (Nat.le_max_right fuel as.length)
      obtain ⟨-, -, hnone, -⟩ := hsize rfl
      have hlen := congrArg List.length hrest
      rw [List.length_drop] at hlen
      have hpos : 0 < (headOf ((arriving as).take 24)).bodySize := by
        rw [UInt32.lt_iff_toNat_lt]
        show 0 < UInt32.toNat _
        omega
      have hfew := @Client.recvWithin_none (headOf ((arriving as).take 24)).bodySize as' (by omega)
        (max fuel as.length)
      rw [hnone hpos (UInt32.not_lt.mp fun hlarge => hno (.inl hlarge)) hfew] at hp'
      cases hp'
    · rintro ⟨-, hbody⟩
      obtain ⟨as', hrest, hle, hsize⟩ := recvPacketWithin_head hhead (Nat.le_refl as.length)
      obtain ⟨hzero, hlarge, -, hsome⟩ := hsize rfl
      have hlen := congrArg List.length hrest
      rw [List.length_drop] at hlen
      by_cases hmax : MAX_PACKET_BODY < (headOf ((arriving as).take 24)).bodySize
      · obtain ⟨p, hp, hres⟩ := hlarge hmax
        exact ⟨_, p, hp, .inr hres⟩
      by_cases hpos : 0 < (headOf ((arriving as).take 24)).bodySize
      · have hfit := hbody.resolve_left hmax
        obtain ⟨as'', hrecv, -, -⟩ :=
          @Client.recvWithin_some (headOf ((arriving as).take 24)).bodySize as' (by omega)
            as.length hle
        obtain ⟨p, hp, hwhole⟩ := hsome hpos (UInt32.not_lt.mp hmax) _ _ (by
          rw [List.length_take]
          omega) hrecv
        exact ⟨_, p, hp, .inl hwhole⟩
      · have hnone : (headOf ((arriving as).take 24)).bodySize = 0 :=
          UInt32.le_antisymm (UInt32.not_lt.mp hpos) (UInt32.zero_le ..)
        obtain ⟨p, hp, hwhole⟩ := hzero hnone
        exact ⟨_, p, hp, .inl hwhole⟩
  · constructor
    · rintro ⟨fuel, p, hp, -⟩
      rw [recvPacketWithin_none (by omega)] at hp
      cases hp
    · intro hholds
      exact absurd hholds.1 hhead

end

/-- **When the receiver gets past the end of the stream.** -/
theorem ends_iff (as : List Answer) :
    (∀ size, Client.RecvEnds size as ↔ size.toNat ≤ (arriving as).length) ∧
      (ReportsEnd as ↔ HoldsPacket (arriving as)) :=
  ⟨fun _ => Client.recvEnds_iff, reportsEnd_iff⟩

/-- The connection is closed before a head is there. -/
theorem not_ends : ¬ Client.RecvEnds 24 [.data [1, 2, 3], .timeout] ∧
    ¬ ReportsEnd [.data [1, 2, 3], .timeout] := by
  refine ⟨?_, ?_⟩
  · rw [Client.recvEnds_iff]
    decide
  · rw [reportsEnd_iff]
    decide

end Receiver

end Zway
