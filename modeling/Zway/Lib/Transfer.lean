import Zway.Lib.Bytes

/-!
# Transfers in pieces

A reader that asks a transport for `size` bytes gets them in pieces, of any sizes
and with pauses in between; it may also be canceled, or told of a failure. What
happens is a list of events, and the list may end before the transfer does: then
the reader still waits.

Nothing depends on how the pieces are cut. A transfer that is neither canceled nor
fails moves the first `size` bytes, and it ends once that many events moved
something: `run_quiet`, `run_isSome`.
-/

namespace Zway.Transfer

/-- What happens the next time the transport is asked. -/
inductive Event where
  | canceled
  | failed
  /-- Nothing is moved, and the reader asks again. -/
  | idle
  /-- Up to `n` bytes are moved, as many as were asked for and are there. -/
  | moved (n : Nat)
  deriving Repr, DecidableEq

/-- How a transfer ends. -/
inductive Ending where
  | complete
  | canceled
  | failed
  deriving Repr, DecidableEq

structure Result where
  ending : Ending
  got : Bytes
  /-- What is left of the bytes and of the events. -/
  rest : Bytes
  events : List Event
  deriving DecidableEq

/-- How many bytes the transport moves when it offers `n`. -/
def moves (size n : Nat) (got source : Bytes) : Nat := min n (min (size - got.length) source.length)

/-- Transfer `size` bytes from `source`, of which `got` are there already. -/
def run (size : Nat) : List Event → Bytes → Bytes → Option Result
  | [], got, source => if got.length < size then none else some ⟨.complete, got, source, []⟩
  | e :: es, got, source =>
      if got.length < size then
        match e with
        | .canceled => some ⟨.canceled, got, source, es⟩
        | .failed => some ⟨.failed, got, source, es⟩
        | .idle => run size es got source
        | .moved n =>
            run size es (got ++ source.take (moves size n got source))
              (source.drop (moves size n got source))
      else some ⟨.complete, got, source, e :: es⟩

/-- One event of a transfer that is not complete. -/
theorem run_cons {size : Nat} {got : Bytes} (h : got.length < size) (e : Event) (es : List Event)
    (source : Bytes) :
    run size (e :: es) got source =
      match e with
      | .canceled => some ⟨.canceled, got, source, es⟩
      | .failed => some ⟨.failed, got, source, es⟩
      | .idle => run size es got source
      | .moved n =>
          run size es (got ++ source.take (moves size n got source))
            (source.drop (moves size n got source)) := by
  cases e <;> exact if_pos h

/-- A transfer that has its bytes is complete. -/
theorem run_of_le {size : Nat} {got : Bytes} (h : size ≤ got.length) (es : List Event)
    (source : Bytes) : run size es got source = some ⟨.complete, got, source, es⟩ := by
  cases es with
  | nil => exact if_neg (Nat.not_lt.mpr h)
  | cons e es => cases e <;> exact if_neg (Nat.not_lt.mpr h)

/-- No transfer is canceled or fails. -/
def Quiet (es : List Event) : Prop := .canceled ∉ es ∧ .failed ∉ es

instance (es : List Event) : Decidable (Quiet es) :=
  inferInstanceAs (Decidable (.canceled ∉ es ∧ .failed ∉ es))

/-- How many events move something, if there is something to move. -/
def productive : List Event → Nat
  | [] => 0
  | .moved n :: es => productive es + if n = 0 then 0 else 1
  | _ :: es => productive es

theorem moves_le (size n : Nat) (got source : Bytes) : moves size n got source ≤ source.length := by
  unfold moves
  omega

theorem got_moves_length (size n : Nat) (got source : Bytes) :
    (got ++ source.take (moves size n got source)).length
      = got.length + moves size n got source := by
  rw [List.length_append, List.length_take, Nat.min_eq_left (moves_le ..)]

theorem Quiet.tail {e : Event} {es : List Event} (h : Quiet (e :: es)) : Quiet es :=
  ⟨fun hm => h.1 (List.mem_cons_of_mem _ hm), fun hm => h.2 (List.mem_cons_of_mem _ hm)⟩

/-- Bytes are neither lost nor made up, and the transfer is complete when all of them are there. -/
theorem run_conserves {size : Nat} : ∀ {es : List Event} {got source : Bytes} {r : Result},
    run size es got source = some r → got.length ≤ size →
    r.got ++ r.rest = got ++ source ∧ r.got.length ≤ size
      ∧ (r.ending = .complete ↔ r.got.length = size) := by
  intro es
  induction es with
  | nil =>
    intro got source r h hle
    rw [run] at h
    split at h
    · exact absurd h (by simp)
    · obtain rfl := Option.some.inj h
      have heq : got.length = size := by omega
      exact ⟨rfl, hle, fun _ => heq, fun _ => rfl⟩
  | cons e es ih =>
    intro got source r h hle
    by_cases hlt : got.length < size
    · rw [run_cons hlt] at h
      cases e with
      | canceled =>
        obtain rfl := Option.some.inj h
        exact ⟨rfl, hle, fun he => (by cases he), fun he => absurd he (Nat.ne_of_lt hlt)⟩
      | failed =>
        obtain rfl := Option.some.inj h
        exact ⟨rfl, hle, fun he => (by cases he), fun he => absurd he (Nat.ne_of_lt hlt)⟩
      | idle => exact ih h hle
      | moved n =>
        have hlen := got_moves_length size n got source
        have hmoves : moves size n got source ≤ size - got.length := by
          unfold moves
          omega
        obtain ⟨hcat, hrest⟩ := ih h (by omega)
        refine ⟨?_, hrest⟩
        rw [hcat, List.append_assoc, List.take_append_drop]
    · rw [run_of_le (by omega)] at h
      obtain rfl := Option.some.inj h
      have heq : got.length = size := by omega
      exact ⟨rfl, hle, fun _ => heq, fun _ => rfl⟩

/-- A quiet transfer that ends is complete, and the events after it are quiet. -/
theorem run_complete {size : Nat} : ∀ {es : List Event} {got source : Bytes} {r : Result},
    run size es got source = some r → Quiet es → r.ending = .complete ∧ Quiet r.events := by
  intro es
  induction es with
  | nil =>
    intro got source r h hq
    rw [run] at h
    split at h
    · exact absurd h (by simp)
    · obtain rfl := Option.some.inj h
      exact ⟨rfl, hq⟩
  | cons e es ih =>
    intro got source r h hq
    by_cases hlt : got.length < size
    · rw [run_cons hlt] at h
      cases e with
      | canceled => exact absurd (List.mem_cons_self ..) hq.1
      | failed => exact absurd (List.mem_cons_self ..) hq.2
      | idle => exact ih h hq.tail
      | moved n => exact ih h hq.tail
    · rw [run_of_le (by omega)] at h
      obtain rfl := Option.some.inj h
      exact ⟨rfl, hq⟩

/-- **A quiet transfer moves the first bytes**, however they are cut. -/
theorem run_quiet {size : Nat} {es : List Event} {source : Bytes} {r : Result}
    (h : run size es [] source = some r) (hq : Quiet es) :
    r.ending = .complete ∧ r.got = source.take size ∧ r.rest = source.drop size ∧ Quiet r.events := by
  obtain ⟨hcat, -, hiff⟩ := run_conserves h (Nat.zero_le _)
  obtain ⟨hend, hquiet⟩ := run_complete h hq
  have hlen := hiff.mp hend
  rw [List.nil_append] at hcat
  refine ⟨hend, ?_, ?_, hquiet⟩
  · rw [← hcat, ← hlen, List.take_left]
  · rw [← hcat, ← hlen, List.drop_left]

/-- **A transfer ends** once as many events moved something as there are bytes to move. -/
theorem run_isSome {size : Nat} : ∀ {es : List Event} {got source : Bytes},
    size ≤ got.length + source.length → size - got.length ≤ productive es →
    ∃ r, run size es got source = some r
      ∧ (Quiet es → productive es ≤ productive r.events + (size - got.length)) := by
  intro es
  induction es with
  | nil =>
    intro got source hsrc hprod
    have hle : size ≤ got.length := by
      change _ ≤ 0 at hprod
      omega
    exact ⟨_, run_of_le hle _ _, fun _ => Nat.le_add_right _ _⟩
  | cons e es ih =>
    intro got source hsrc hprod
    by_cases hlt : got.length < size
    · rw [run_cons hlt]
      cases e with
      | canceled => exact ⟨_, rfl, fun hq => absurd (List.mem_cons_self ..) hq.1⟩
      | failed => exact ⟨_, rfl, fun hq => absurd (List.mem_cons_self ..) hq.2⟩
      | idle =>
        obtain ⟨r, hr, hleft⟩ := ih hsrc hprod
        exact ⟨r, hr, fun hq => hleft hq.tail⟩
      | moved n =>
        have hlen := got_moves_length size n got source
        have hdrop : (source.drop (moves size n got source)).length
            = source.length - moves size n got source := List.length_drop
        have hle := moves_le size n got source
        have hcount : productive (.moved n :: es) = productive es + if n = 0 then 0 else 1 := rfl
        -- an event that counts moves at least one byte
        have hmove : (if n = 0 then 0 else 1) ≤ moves size n got source := by
          unfold moves
          split <;> omega
        obtain ⟨r, hr, hleft⟩ := @ih (got ++ source.take (moves size n got source))
          (source.drop (moves size n got source)) (by omega) (by omega)
        refine ⟨r, hr, fun hq => ?_⟩
        have h := hleft hq.tail
        have hm : moves size n got source ≤ size - got.length := by
          unfold moves
          omega
        omega
    · exact ⟨_, run_of_le (by omega) _ _, fun _ => Nat.le_add_right _ _⟩

end Zway.Transfer
