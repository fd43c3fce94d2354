import Zway.Stream.Framing

/-!
# Partial packets

`Receiver::run` queues a packet if `recvPacket` returns a positive `int32_t`. A
reader would expect that of whole packets only. But a failure in `Client::recv`
comes back as `uint32_t(-1)`: it is not below the size it is compared with, so it
passes for a success, and it is added to the sum.

After a whole head a failing body leaves the sum 23. After a failing head, a body
that is received leaves one less than its size. Nothing else goes wrong:
`recvPacket_whole_iff`.
-/

namespace Zway.Receiver

open Transfer (Event Ending)

/-- The body of a packet whose head is there fails. -/
def BodyFails (es : List Event) (incoming : Bytes) : Prop :=
  ∃ h b, Transfer.run 24 es [] incoming = some h ∧ h.ending = .complete
    ∧ 0 < (headOf h.got).bodySize ∧ (headOf h.got).bodySize ≤ MAX_PACKET_BODY
    ∧ Transfer.run (headOf h.got).bodySize.toNat h.events [] h.rest = some b ∧ b.ending = .failed

/-- The head fails, with a size of two or more in what came of it, and so many bytes follow. -/
def HeadFails (es : List Event) (incoming : Bytes) : Prop :=
  ∃ h b, Transfer.run 24 es [] incoming = some h ∧ h.ending = .failed
    ∧ 1 < (headOf h.got).bodySize ∧ (headOf h.got).bodySize ≤ MAX_PACKET_BODY
    ∧ Transfer.run (headOf h.got).bodySize.toNat h.events [] h.rest = some b ∧ b.ending = .complete

/-- All of the head and of the body was received. -/
def RecvPacket.Whole (p : RecvPacket) : Prop :=
  p.headRead = 24 ∧ p.bodyRead = p.pkt.head.bodySize.toNat

/-- The return value of a transfer that is not canceled is not below the size it was asked for. -/
theorem code_not_lt {size : UInt32} {es : List Event} {incoming : Bytes} {t : Transfer.Result}
    (ht : Transfer.run size.toNat es [] incoming = some t) :
    t.ending ≠ .canceled ↔ ¬ Client.code t < size := by
  obtain ⟨-, hle, hiff⟩ := Transfer.run_conserves ht (Nat.zero_le _)
  have hsize := size.toNat_lt
  have hcount : (UInt32.ofNat t.got.length).toNat = t.got.length := by
    rw [UInt32.toNat_ofNat']
    omega
  unfold Client.code
  cases hend : t.ending with
  | complete =>
    have heq := hiff.mp hend
    rw [UInt32.lt_iff_toNat_lt]
    dsimp only
    rw [hcount, heq]
    exact ⟨fun _ => Nat.lt_irrefl _, fun _ h => by cases h⟩
  | canceled =>
    have hne : t.got.length ≠ size.toNat := fun he => by
      have := hiff.mpr he
      rw [hend] at this
      cases this
    rw [UInt32.lt_iff_toNat_lt]
    dsimp only
    rw [hcount]
    exact ⟨fun h => absurd rfl h, fun h => absurd (by omega) h⟩
  | failed =>
    rw [UInt32.lt_iff_toNat_lt]
    refine ⟨fun _ => ?_, fun _ h => by cases h⟩
    show ¬ 4294967295 < size.toNat
    omega

section

variable {es : List Event} {incoming : Bytes} {t : Transfer.Result}

theorem recv_run {size : UInt32} (ht : Transfer.run size.toNat es [] incoming = some t) :
    Client.recv size es incoming = some ⟨Client.code t, t.got, t.rest, t.events⟩ := by
  rw [Client.recv_eq, ht]
  rfl

/-- A canceled head is turned down. -/
theorem recvPacket_canceled (ht : Transfer.run 24 es [] incoming = some t)
    (hend : t.ending = .canceled) {p : RecvPacket} (h : recvPacket es incoming = some p) :
    ¬ Queued p.res := by
  have hlt : Client.code t < 24 := by
    by_contra hge
    exact (@code_not_lt 24 _ _ _ ht).mpr hge hend
  have hrecv : Client.recv 24 es incoming = _ := recv_run ht
  unfold recvPacket at h
  rw [hrecv] at h
  dsimp only at h
  by_cases hzero : Client.code t = 0
  · rw [if_pos hzero] at h
    obtain rfl := Option.some.inj h
    show ¬ Queued 0
    decide
  · rw [if_neg hzero, if_pos hlt] at h
    obtain rfl := Option.some.inj h
    show ¬ Queued (-1)
    decide

/-- Past the head, the result depends on the size that the head announces. -/
theorem recvPacket_past_head (ht : Transfer.run 24 es [] incoming = some t)
    (hend : t.ending ≠ .canceled) :
    recvPacket es incoming =
      if 0 < (headOf t.got).bodySize then
        if MAX_PACKET_BODY < (headOf t.got).bodySize then
          some ⟨-1, ⟨headOf t.got, none⟩, t.got.length, 0, t.rest, t.events⟩
        else
          match Client.recv (headOf t.got).bodySize t.events t.rest with
          | none => none
          | some b =>
              if b.res < (headOf t.got).bodySize then
                some ⟨-1, ⟨headOf t.got, none⟩, t.got.length, b.data.length, b.incoming, b.events⟩
              else
                some ⟨Client.code t + b.res,
                  Packet.setBody ⟨headOf t.got, none⟩
                    ((MemoryBuffer.create (headOf t.got).bodySize).blit b.data 0) 0,
                  t.got.length, b.data.length, b.incoming, b.events⟩
      else some ⟨Client.code t, ⟨headOf t.got, none⟩, t.got.length, 0, t.rest, t.events⟩ := by
  have hge : ¬ Client.code t < 24 := (@code_not_lt 24 _ _ _ ht).mp hend
  have hne : Client.code t ≠ 0 := by
    intro h0
    rw [h0] at hge
    exact hge (by decide)
  have hrecv : Client.recv 24 es incoming = _ := recv_run ht
  unfold recvPacket
  rw [hrecv]
  exact (if_neg hne).trans (if_neg hge)

/-- A packet with a body that is neither canceled nor too large. -/
theorem recvPacket_body (ht : Transfer.run 24 es [] incoming = some t) (hend : t.ending ≠ .canceled)
    (hpos : 0 < (headOf t.got).bodySize) (hle : (headOf t.got).bodySize ≤ MAX_PACKET_BODY)
    {b : Transfer.Result}
    (hb : Transfer.run (headOf t.got).bodySize.toNat t.events [] t.rest = some b)
    (hbend : b.ending ≠ .canceled) :
    ∃ p, recvPacket es incoming = some p ∧ p.res = Client.code t + Client.code b
      ∧ p.headRead = t.got.length ∧ p.bodyRead = b.got.length
      ∧ p.pkt.head.bodySize = (headOf t.got).bodySize := by
  have hge : ¬ Client.code b < (headOf t.got).bodySize := (code_not_lt hb).mp hbend
  rw [recvPacket_past_head ht hend, if_pos hpos, if_neg (UInt32.not_lt.mpr hle), recv_run hb]
  dsimp only
  rw [if_neg hge]
  refine ⟨_, rfl, rfl, rfl, rfl, ?_⟩
  dsimp only
  rw [Packet.setBody_bodySize, MemoryBuffer.blit_size, MemoryBuffer.create_size, UInt32.ofNat_toNat]

/-- A packet with a body that is turned down. -/
theorem recvPacket_body_canceled (ht : Transfer.run 24 es [] incoming = some t)
    (hend : t.ending ≠ .canceled) (hpos : 0 < (headOf t.got).bodySize) {p : RecvPacket}
    (h : recvPacket es incoming = some p)
    (hbad : MAX_PACKET_BODY < (headOf t.got).bodySize ∨
      ∃ b, Transfer.run (headOf t.got).bodySize.toNat t.events [] t.rest = some b
        ∧ b.ending = .canceled) : ¬ Queued p.res := by
  rw [recvPacket_past_head ht hend, if_pos hpos] at h
  by_cases hlarge : MAX_PACKET_BODY < (headOf t.got).bodySize
  · rw [if_pos hlarge] at h
    obtain rfl := Option.some.inj h
    show ¬ Queued (-1)
    decide
  · obtain ⟨b, hb, hbend⟩ := hbad.resolve_left hlarge
    have hlt : Client.code b < (headOf t.got).bodySize := by
      by_contra hge
      exact (code_not_lt hb).mpr hge hbend
    rw [if_neg hlarge, recv_run hb] at h
    dsimp only at h
    rw [if_pos hlt] at h
    obtain rfl := Option.some.inj h
    show ¬ Queued (-1)
    decide

/-- A packet that waits for its body. -/
theorem recvPacket_body_none (ht : Transfer.run 24 es [] incoming = some t)
    (hend : t.ending ≠ .canceled) (hpos : 0 < (headOf t.got).bodySize)
    (hle : ¬ MAX_PACKET_BODY < (headOf t.got).bodySize)
    (hb : Transfer.run (headOf t.got).bodySize.toNat t.events [] t.rest = none) :
    recvPacket es incoming = none := by
  rw [recvPacket_past_head ht hend, if_pos hpos, if_neg hle, Client.recv_eq, hb]
  rfl

theorem code_complete {size : UInt32} (ht : Transfer.run size.toNat es [] incoming = some t)
    (hend : t.ending = .complete) : Client.code t = size := by
  obtain ⟨-, -, hiff⟩ := Transfer.run_conserves ht (Nat.zero_le _)
  unfold Client.code
  rw [hend]
  dsimp only
  rw [hiff.mp hend, UInt32.ofNat_toNat]

theorem code_failed (hend : t.ending = .failed) : Client.code t = -1 := by
  unfold Client.code
  rw [hend]

end

/-- One less than a size is positive if the size is two or more. -/
theorem queued_sub_one {size : UInt32} (hle : size ≤ MAX_PACKET_BODY) :
    Queued (-1 + size) ↔ 1 < size := by
  have hmax := UInt32.le_iff_toNat_le.mp hle
  rw [MAX_PACKET_BODY_toNat] at hmax
  rw [queued_iff, UInt32.lt_iff_toNat_lt, UInt32.toNat_add]
  show 0 < (4294967295 + size.toNat) % 2 ^ 32 ∧ (4294967295 + size.toNat) % 2 ^ 32 < 2 ^ 31
    ↔ 1 < size.toNat
  omega

/-- **When a queued packet is whole.** Whatever the transport does, a packet is queued only if all
of it was received, except when its body fails, or when its head fails and a body follows. -/
theorem recvPacket_whole_iff (es : List Event) (incoming : Bytes) :
    (∀ p, recvPacket es incoming = some p → Queued p.res → p.Whole) ↔
      ¬ BodyFails es incoming ∧ ¬ HeadFails es incoming := by
  constructor
  · intro hwhole
    refine ⟨?_, ?_⟩
    · rintro ⟨t, b, ht, hend, hpos, hle, hb, hbend⟩
      obtain ⟨p, hp, hres, -, hread, hsize⟩ := recvPacket_body ht (by rw [hend]; decide) hpos hle hb
        (by rw [hbend]; decide)
      obtain ⟨-, -, hiff⟩ := Transfer.run_conserves hb (Nat.zero_le _)
      have hqueued : Queued p.res := by
        rw [hres, @code_complete _ _ _ 24 ht hend, code_failed hbend]
        decide
      have hall := (hwhole p hp hqueued).2
      rw [hread, hsize] at hall
      have hcomplete := hiff.mpr hall
      rw [hbend] at hcomplete
      cases hcomplete
    · rintro ⟨t, b, ht, hend, hpos, hle, hb, hbend⟩
      obtain ⟨p, hp, hres, hread, -, -⟩ := recvPacket_body ht (by rw [hend]; decide)
        (UInt32.lt_trans (by decide) hpos) hle hb (by rw [hbend]; decide)
      obtain ⟨-, -, hiff⟩ := Transfer.run_conserves ht (Nat.zero_le _)
      have hqueued : Queued p.res := by
        rw [hres, code_failed hend, code_complete hb hbend]
        exact (queued_sub_one hle).mpr hpos
      have hall := (hwhole p hp hqueued).1
      rw [hread] at hall
      have hcomplete := hiff.mpr hall
      rw [hend] at hcomplete
      cases hcomplete
  · rintro ⟨hbody, hhead⟩ p hp hqueued
    cases ht : Transfer.run 24 es [] incoming with
    | none =>
      have hrecv : Client.recv 24 es incoming = none := by
        rw [Client.recv_eq]
        exact congrArg (Option.map _) ht
      unfold recvPacket at hp
      rw [hrecv] at hp
      exact absurd hp (by simp)
    | some t =>
      obtain ⟨-, -, hiff⟩ := Transfer.run_conserves ht (Nat.zero_le _)
      have hend : t.ending ≠ .canceled := fun h => recvPacket_canceled ht h hp hqueued
      by_cases hpos : 0 < (headOf t.got).bodySize
      · have hle : ¬ MAX_PACKET_BODY < (headOf t.got).bodySize := fun h =>
          recvPacket_body_canceled ht hend hpos hp (.inl h) hqueued
        cases hb : Transfer.run (headOf t.got).bodySize.toNat t.events [] t.rest with
        | none =>
          rw [recvPacket_body_none ht hend hpos hle hb] at hp
          exact absurd hp (by simp)
        | some b =>
          have hbend : b.ending ≠ .canceled := fun h =>
            recvPacket_body_canceled ht hend hpos hp (.inr ⟨b, hb, h⟩) hqueued
          obtain ⟨p', hp', hres, hread, hread', hsize⟩ :=
            recvPacket_body ht hend hpos (UInt32.not_lt.mp hle) hb hbend
          obtain rfl : p' = p := Option.some.inj (hp'.symm.trans hp)
          obtain ⟨-, -, hiff'⟩ := Transfer.run_conserves hb (Nat.zero_le _)
          cases hte : t.ending with
          | canceled => exact absurd hte hend
          | complete =>
            cases hbe : b.ending with
            | canceled => exact absurd hbe hbend
            | complete =>
              exact ⟨hread.trans (hiff.mp hte), hread'.trans ((hiff'.mp hbe).trans
                (congrArg UInt32.toNat hsize.symm))⟩
            | failed => exact absurd ⟨t, b, ht, hte, hpos, UInt32.not_lt.mp hle, hb, hbe⟩ hbody
          | failed =>
            rw [hres, code_failed hte] at hqueued
            cases hbe : b.ending with
            | canceled => exact absurd hbe hbend
            | complete =>
              rw [code_complete hb hbe] at hqueued
              exact absurd ⟨t, b, ht, hte, (queued_sub_one (UInt32.not_lt.mp hle)).mp hqueued,
                UInt32.not_lt.mp hle, hb, hbe⟩ hhead
            | failed =>
              rw [code_failed hbe] at hqueued
              exact absurd hqueued (by decide)
      · rw [recvPacket_past_head ht hend, if_neg hpos] at hp
        obtain rfl := Option.some.inj hp
        have hzero : (headOf t.got).bodySize = 0 :=
          UInt32.le_antisymm (UInt32.not_lt.mp hpos) (UInt32.zero_le ..)
        cases hte : t.ending with
        | canceled => exact absurd hte hend
        | complete =>
          refine ⟨hiff.mp hte, ?_⟩
          show 0 = (headOf t.got).bodySize.toNat
          rw [hzero]
          rfl
        | failed =>
          change Queued (Client.code t) at hqueued
          rw [code_failed hte] at hqueued
          exact absurd hqueued (by decide)

/-- A whole head that announces two bytes, and then a failure: the result is 23. -/
theorem recvPacket_partial :
    ∃ p, recvPacket [.moved 24, .failed] (Packet.Head.bytes ⟨0, 7, 1, 1, 1, 2⟩) = some p
      ∧ Queued p.res ∧ ¬ p.Whole := by
  have hhead : Transfer.run 24 [.moved 24, .failed] [] (Packet.Head.bytes ⟨0, 7, 1, 1, 1, 2⟩)
      = some ⟨.complete, Packet.Head.bytes ⟨0, 7, 1, 1, 1, 2⟩, [], [.failed]⟩ := rfl
  obtain ⟨p, hp, hres, -, hread, hsize⟩ := recvPacket_body hhead (by decide) (by decide) (by decide)
    (b := ⟨.failed, [], [], []⟩) rfl (by decide)
  refine ⟨p, hp, ?_, fun hwhole => ?_⟩
  · rw [hres]
    decide
  · have hall := hwhole.2
    rw [hread, hsize] at hall
    exact absurd hall (by decide)

end Zway.Receiver
