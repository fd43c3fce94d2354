import Zway.Ubj.WriterProof

/-!
# The container stack of the writer

`priv_ubjw_container_stack_push` does nothing once the stack is full, and the pop that
belongs to it takes a container all the same. What is followed here are the flags of the
containers on the stack, `kinds`; a value changes neither them nor the height as long as
it is not nested deeper than the stack has room for. One that is leaves the stack lower
than it was, and nothing written later makes up for it.
-/

namespace Zway.Ubj

/-- What a container was opened as. -/
structure ContainerKind where
  isSized : Bool
  isTyped : Bool
  isUbjArray : Bool
  isUbjObject : Bool
  type : UbjType
  deriving Repr, DecidableEq

def UbjwContainer.kind (ch : UbjwContainer) : ContainerKind :=
  ⟨ch.isSized, ch.isTyped, ch.isUbjArray, ch.isUbjObject, ch.type⟩

/-- The flags of the containers on the stack. -/
def UbjwContext.kinds (ctx : UbjwContext) : List ContainerKind := ctx.containerStack.map (·.kind)

def UbjwContext.height (ctx : UbjwContext) : Nat := ctx.containerStack.length

theorem UbjwContext.kinds_length (ctx : UbjwContext) : ctx.kinds.length = ctx.height :=
  List.length_map _

/-! ## What is written inside a container -/

@[simp] theorem kinds_append (ctx : UbjwContext) (a : UInt8) :
    (privUbjwContextAppend ctx a).kinds = ctx.kinds := rfl

@[simp] theorem kinds_write (ctx : UbjwContext) (data : Bytes) :
    (privUbjwContextWrite ctx data).kinds = ctx.kinds := rfl

/-- A container that keeps its flags can be put back. -/
theorem kinds_setHead {ctx : UbjwContext} {ch : UbjwContainer}
    (h : ch.kind = (ctx.containerStack.headD UbjwContainer.base).kind) :
    (ctx.setHead ch).kinds = ctx.kinds := by
  obtain ⟨st, ignore, written⟩ := ctx
  cases st with
  | nil => rfl
  | cons top st => exact congrArg (· :: st.map (·.kind)) h

/-- A value that is taken changes two fields of its container, neither of them a flag of it. -/
theorem UbjwContainer.tagged_kind (ch : UbjwContainer) : ch.tagged.kind = ch.kind := by
  unfold UbjwContainer.tagged
  dsimp only
  split
  · split
    · rfl
    · rfl
  · split
    · rfl
    · rfl

@[simp] theorem kinds_tag (ctx : UbjwContext) (tid : UbjType) :
    (privUbjwTagPublic ctx tid).kinds = ctx.kinds := by
  generalize hch : ctx.containerStack.headD UbjwContainer.base = ch
  have hset : (ctx.setHead ch.tagged).kinds = ctx.kinds := by
    refine kinds_setHead ?_
    rw [hch, UbjwContainer.tagged_kind]
  have htag : privUbjwTagPublic ctx tid =
      if ctx.ignoreContainerFlags then privUbjwContextAppend ctx (ubjiTypecConvert tid)
      else if ch.isUbjObject && ch.expectsKey then ctx
      else if ch.tagged.isTyped && ch.tagged.type == tid then ctx.setHead ch.tagged
      else privUbjwContextAppend (ctx.setHead ch.tagged) (ubjiTypecConvert tid) := by
    rw [← hch]
    rfl
  rw [htag]
  split
  · rfl
  · split
    · rfl
    · split
      · exact hset
      · exact hset

@[simp] theorem kinds_writeBigendian (ctx : UbjwContext) (tid : UbjType) (k out : Nat) :
    (ubjwWriteBigendian ctx tid k out).kinds = ctx.kinds :=
  kinds_tag ctx tid

@[simp] theorem kinds_writeLength (ctx : UbjwContext) (n : Nat) :
    (ubjwWriteLength ctx n).kinds = ctx.kinds := by
  have hinteger : ∀ (c : UbjwContext) (i : BitVec 64), (ubjwWriteInteger c i).kinds = c.kinds := by
    intro c i
    unfold ubjwWriteInteger
    split
    · exact kinds_writeBigendian ..
    · exact kinds_writeBigendian ..
    · exact kinds_writeBigendian ..
    · exact kinds_writeBigendian ..
    · exact kinds_writeBigendian ..
  exact hinteger { ctx with ignoreContainerFlags := true } (BitVec.ofNat 64 n)

@[simp] theorem kinds_writeRawString (ctx : UbjwContext) (s : Bytes) :
    (privUbjwWriteRawString ctx s).kinds = ctx.kinds :=
  kinds_writeLength ctx _

@[simp] theorem kinds_writeKey (ctx : UbjwContext) (key : Bytes) :
    (ubjwWriteKey ctx key).kinds = ctx.kinds := by
  unfold ubjwWriteKey
  dsimp only
  split
  · have hhead : ((privUbjwWriteRawString ctx key).setHead
        { (privUbjwWriteRawString ctx key).containerStack.headD UbjwContainer.base with
          expectsKey :=
            !((privUbjwWriteRawString ctx key).containerStack.headD UbjwContainer.base).expectsKey
        }).kinds = (privUbjwWriteRawString ctx key).kinds := kinds_setHead rfl
    rw [hhead, kinds_writeRawString]
  · rfl

/-- The context a field is written in. -/
def keyed (key : Bytes) (ctx : UbjwContext) : UbjwContext :=
  if key.isEmpty then ctx else ubjwWriteKey ctx key

@[simp] theorem kinds_keyed (key : Bytes) (ctx : UbjwContext) : (keyed key ctx).kinds = ctx.kinds := by
  unfold keyed
  split
  · rfl
  · exact kinds_writeKey ctx key

/-! ## Opening and closing -/

/-- What an array is opened as. -/
def arrayKind (type : UbjType) (count : Nat) : ContainerKind :=
  ⟨decide (count ≠ 0), decide (type ≠ .mixed), true, false, type⟩

def objectKind (type : UbjType) (count : Nat) : ContainerKind :=
  ⟨decide (count ≠ 0), decide (type ≠ .mixed), false, true, type⟩

/-- A full stack stays as it is. -/
def pushed (kind : ContainerKind) (kinds : List ContainerKind) : List ContainerKind :=
  if kinds.length < containerStackMax then kind :: kinds else kinds

theorem kinds_push (ctx : UbjwContext) (cnt : UbjwContainer) :
    (privUbjwContainerStackPush ctx cnt).kinds = pushed cnt.kind ctx.kinds := by
  unfold privUbjwContainerStackPush pushed
  rw [UbjwContext.kinds_length]
  show (if ctx.height < containerStackMax then _ else _ : UbjwContext).kinds = _
  split
  · rfl
  · rfl

theorem kinds_beginContainer (ctx : UbjwContext) (type : UbjType) (count : Nat) :
    (privUbjwBeginContainer ctx type count).2.kinds = ctx.kinds := by
  unfold privUbjwBeginContainer
  dsimp only
  by_cases htype : type ≠ .mixed
  · by_cases hcount : count ≠ 0
    · rw [if_pos htype, if_pos hcount]
      exact kinds_writeLength _ _
    · rw [if_pos htype, if_neg hcount]
      rfl
  · by_cases hcount : count ≠ 0
    · rw [if_neg htype, if_pos hcount]
      exact kinds_writeLength _ _
    · rw [if_neg htype, if_neg hcount]

theorem kind_beginContainer (ctx : UbjwContext) (type : UbjType) (count : Nat) :
    (privUbjwBeginContainer ctx type count).1.kind =
      ⟨decide (count ≠ 0), decide (type ≠ .mixed), false, false, type⟩ := by
  unfold privUbjwBeginContainer
  dsimp only
  by_cases htype : type ≠ .mixed
  · by_cases hcount : count ≠ 0
    · rw [if_pos htype, if_pos hcount, decide_eq_true htype, decide_eq_true hcount]
      rfl
    · rw [if_pos htype, if_neg hcount, decide_eq_true htype, decide_eq_false hcount]
      rfl
  · by_cases hcount : count ≠ 0
    · rw [if_neg htype, if_pos hcount, decide_eq_false htype, decide_eq_true hcount]
      rfl
    · rw [if_neg htype, if_neg hcount, decide_eq_false htype, decide_eq_false hcount]
      rfl

theorem kinds_beginArray (ctx : UbjwContext) (type : UbjType) (count : Nat) :
    (ubjwBeginArray ctx type count).kinds = pushed (arrayKind type count) ctx.kinds := by
  have hkind := kind_beginContainer (privUbjwTagPublic ctx .array) type count
  have hkinds := kinds_beginContainer (privUbjwTagPublic ctx .array) type count
  unfold ubjwBeginArray
  dsimp only
  rw [kinds_push, hkinds, kinds_tag]
  refine congrArg (pushed · ctx.kinds) ?_
  exact congrArg (fun k : ContainerKind => { k with isUbjArray := true }) hkind

theorem kinds_beginObject (ctx : UbjwContext) (type : UbjType) (count : Nat) :
    (ubjwBeginObject ctx type count).kinds = pushed (objectKind type count) ctx.kinds := by
  have hkind := kind_beginContainer (privUbjwTagPublic ctx .object) type count
  have hkinds := kinds_beginContainer (privUbjwTagPublic ctx .object) type count
  unfold ubjwBeginObject
  dsimp only
  rw [kinds_push, hkinds, kinds_tag]
  refine congrArg (pushed · ctx.kinds) ?_
  exact congrArg (fun k : ContainerKind => { k with isUbjObject := true }) hkind

/-- The pop takes a container, whichever it is. -/
theorem kinds_end (ctx : UbjwContext) : (ubjwEnd ctx).kinds = ctx.kinds.tail := by
  have hfinish : ∀ (c : UbjwContext) (ch : UbjwContainer),
      (privUbjwContextFinishContainer c ch).kinds = c.kinds := by
    intro c ch
    unfold privUbjwContextFinishContainer
    split
    · rfl
    · split
      · rfl
      · split
        · rfl
        · rfl
  unfold ubjwEnd privUbjwContainerStackPop
  rw [hfinish]
  show (ctx.containerStack.tail).map (·.kind) = (ctx.containerStack.map (·.kind)).tail
  rw [List.map_tail]

/-! ## The calls of `Writer::writeObject` and `Writer::writeArray` -/

/-- What the container of a value is opened as. -/
def openedKind : Value → ContainerKind
  | .object fields => objectKind .mixed fields.length
  | .array items => arrayKind .mixed items.length
  | .buffer data => if data.length = 0 then arrayKind .mixed 0 else arrayKind .int8 data.length
  | _ => UbjwContainer.base.kind

/-- The context in front of the closing step. -/
def contentWritten : Value → UbjwContext → UbjwContext
  | .object fields, ctx => Writer.writeFields fields (ubjwBeginObject ctx .mixed fields.length)
  | .array items, ctx => Writer.writeItems items (ubjwBeginArray ctx .mixed items.length)
  | .buffer data, ctx =>
      if data.length = 0 then ubjwBeginArray ctx .mixed 0
      else privUbjwContextWrite (ubjwBeginArray ctx .int8 data.length) data
  | _, ctx => ctx

theorem writeTagged_container {v : Value} (h : v.isContainer = true) (ctx : UbjwContext) :
    Writer.writeTagged v ctx = ubjwEnd (contentWritten v ctx) := by
  cases v with
  | buffer data =>
    rw [Writer.writeTagged, contentWritten]
    split
    · rfl
    · have hsize : (ubjiTypeSize .int8).toNat = 1 := by decide
      rw [ubjwWriteBuffer, hsize, if_pos rfl, Nat.one_mul, List.take_length]
  | array items => rw [Writer.writeTagged, contentWritten]
  | object fields => rw [Writer.writeTagged, contentWritten]
  | _ => cases h

/-- What is written to close a container. -/
def terminator (kind : ContainerKind) : Bytes :=
  if kind.isSized then [] else if kind.isUbjArray then [0x5D] else if kind.isUbjObject then [0x7D]
  else []

/-- A call leaves the stack as it was, and closes the container that it opened. -/
structure StackKept (v : Value) (ctx : UbjwContext) : Prop where
  /-- The height is that on entry. -/
  height : (Writer.writeTagged v ctx).height = ctx.height
  /-- The containers below are those that were there. -/
  parents : (Writer.writeTagged v ctx).kinds = ctx.kinds
  /-- The closing step takes the container that was opened. -/
  closed : (contentWritten v ctx).kinds.head? = some (openedKind v)
  /-- So it is terminated if it was opened without a size. -/
  terminated : (Writer.writeTagged v ctx).written
    = (contentWritten v ctx).written ++ terminator (openedKind v)

mutual

/-- The calls that are made for a value, with the context each of them gets. -/
def calls : Value → UbjwContext → List (Value × UbjwContext)
  | .object fields, ctx =>
      (.object fields, ctx) :: callsFields fields (ubjwBeginObject ctx .mixed fields.length)
  | .array items, ctx =>
      (.array items, ctx) :: callsItems items (ubjwBeginArray ctx .mixed items.length)
  | .buffer data, ctx => [(.buffer data, ctx)]
  | _, _ => []

def callsItems : List Value → UbjwContext → List (Value × UbjwContext)
  | [], _ => []
  | v :: vs, ctx => calls v ctx ++ callsItems vs (Writer.writeTagged v ctx)

def callsFields : List (Bytes × Value) → UbjwContext → List (Value × UbjwContext)
  | [], _ => []
  | (key, v) :: fs, ctx =>
      calls v (keyed key ctx) ++ callsFields fs (Writer.writeTagged v (keyed key ctx))

end

/-! ## What a value does to the stack -/

theorem kinds_scalar {v : Value} (h : v.isContainer = false) (ctx : UbjwContext) :
    (Writer.writeTagged v ctx).kinds = ctx.kinds := by
  cases v with
  | null => exact kinds_tag ..
  | bool b => exact kinds_tag ..
  | int32 i => exact kinds_writeBigendian ..
  | int64 i => exact kinds_writeBigendian ..
  | float32 bits => exact kinds_writeBigendian ..
  | float64 bits => exact kinds_writeBigendian ..
  | string s =>
    rw [Writer.writeTagged, ubjwWriteString, kinds_writeRawString, kinds_tag]
  | _ => cases h

/-- What a container is opened as, and what the stack is like then. -/
theorem kinds_contentWritten_buffer (data : Bytes) (ctx : UbjwContext) :
    (contentWritten (.buffer data) ctx).kinds = pushed (openedKind (.buffer data)) ctx.kinds := by
  rw [contentWritten, openedKind]
  split
  · exact kinds_beginArray ..
  · exact kinds_beginArray ..

theorem pushed_of_room {kind : ContainerKind} {kinds : List ContainerKind}
    (h : kinds.length < containerStackMax) : pushed kind kinds = kind :: kinds := if_pos h

theorem pushed_length_le (kind : ContainerKind) (kinds : List ContainerKind) :
    (pushed kind kinds).length ≤ kinds.length + 1 := by
  unfold pushed
  split
  · exact Nat.le_refl _
  · exact Nat.le_succ _

theorem writeItems_cons (v : Value) (vs : List Value) (ctx : UbjwContext) :
    Writer.writeItems (v :: vs) ctx = Writer.writeItems vs (Writer.writeTagged v ctx) := by
  rw [Writer.writeItems]

theorem writeFields_cons (key : Bytes) (v : Value) (fs : List (Bytes × Value)) (ctx : UbjwContext) :
    Writer.writeFields ((key, v) :: fs) ctx
      = Writer.writeFields fs (Writer.writeTagged v (keyed key ctx)) := by
  rw [Writer.writeFields]
  rfl

theorem height_keyed (key : Bytes) (ctx : UbjwContext) : (keyed key ctx).height = ctx.height := by
  rw [← UbjwContext.kinds_length, kinds_keyed, UbjwContext.kinds_length]

theorem height_of_kinds {a b : UbjwContext} (h : a.kinds = b.kinds) : a.height = b.height := by
  rw [← UbjwContext.kinds_length, h, UbjwContext.kinds_length]

theorem height_container {v : Value} (h : v.isContainer = true) (ctx : UbjwContext) :
    (Writer.writeTagged v ctx).height = (contentWritten v ctx).height - 1 := by
  rw [writeTagged_container h, ← UbjwContext.kinds_length, kinds_end, List.length_tail,
    UbjwContext.kinds_length]

/-- Closing the container that is on top. -/
theorem written_end {ctx : UbjwContext} {kind : ContainerKind} (h : ctx.kinds.head? = some kind) :
    (ubjwEnd ctx).written = ctx.written ++ terminator kind := by
  obtain ⟨st, ignore, written⟩ := ctx
  cases st with
  | nil => cases h
  | cons top st =>
    obtain rfl : top.kind = kind := Option.some.inj h
    unfold ubjwEnd privUbjwContainerStackPop privUbjwContextFinishContainer terminator
    show (if top.isSized = true then _ else _ : UbjwContext).written = _ ++ if top.isSized = true then _ else _
    split
    · exact (List.append_nil _).symm
    · show (if top.isUbjArray = true then _ else _ : UbjwContext).written
        = _ ++ if top.isUbjArray = true then _ else _
      split
      · rfl
      · show (if top.isUbjObject = true then _ else _ : UbjwContext).written
          = _ ++ if top.isUbjObject = true then _ else _
        split
        · rfl
        · exact (List.append_nil _).symm

/-! ## With room for all that is nested -/

mutual

/-- **A value leaves the stack as it was**, if there is room for what is nested in it. -/
theorem kinds_writeTagged : ∀ (v : Value) {ctx : UbjwContext},
    ctx.height + depth v ≤ containerStackMax → (Writer.writeTagged v ctx).kinds = ctx.kinds
  | .object fields, ctx, h => by
      have hcontent := kinds_contentWritten (.object fields) rfl h
      rw [writeTagged_container rfl, kinds_end, hcontent, List.tail_cons]
  | .array items, ctx, h => by
      have hcontent := kinds_contentWritten (.array items) rfl h
      rw [writeTagged_container rfl, kinds_end, hcontent, List.tail_cons]
  | .buffer data, ctx, h => by
      have hcontent := kinds_contentWritten (.buffer data) rfl h
      rw [writeTagged_container rfl, kinds_end, hcontent, List.tail_cons]
  | .null, _, _ => kinds_scalar rfl _
  | .bool _, _, _ => kinds_scalar rfl _
  | .int32 _, _, _ => kinds_scalar rfl _
  | .int64 _, _, _ => kinds_scalar rfl _
  | .float32 _, _, _ => kinds_scalar rfl _
  | .float64 _, _, _ => kinds_scalar rfl _
  | .string _, _, _ => kinds_scalar rfl _

/-- In front of the closing step the container that was opened is on top. -/
theorem kinds_contentWritten : ∀ (v : Value) {ctx : UbjwContext}, v.isContainer = true →
    ctx.height + depth v ≤ containerStackMax →
    (contentWritten v ctx).kinds = openedKind v :: ctx.kinds
  | .object fields, ctx, _, h => by
      rw [depth] at h
      have hroom : ctx.kinds.length < containerStackMax := by
        rw [UbjwContext.kinds_length]
        omega
      have hopen := (kinds_beginObject ctx .mixed fields.length).trans (pushed_of_room hroom)
      have hheight : (ubjwBeginObject ctx .mixed fields.length).height = ctx.height + 1 := by
        rw [← UbjwContext.kinds_length, hopen, List.length_cons, UbjwContext.kinds_length]
      rw [contentWritten, kinds_writeFields fields (by rw [hheight]; omega), hopen]
      rfl
  | .array items, ctx, _, h => by
      rw [depth] at h
      have hroom : ctx.kinds.length < containerStackMax := by
        rw [UbjwContext.kinds_length]
        omega
      have hopen := (kinds_beginArray ctx .mixed items.length).trans (pushed_of_room hroom)
      have hheight : (ubjwBeginArray ctx .mixed items.length).height = ctx.height + 1 := by
        rw [← UbjwContext.kinds_length, hopen, List.length_cons, UbjwContext.kinds_length]
      rw [contentWritten, kinds_writeItems items (by rw [hheight]; omega), hopen]
      rfl
  | .buffer data, ctx, _, h => by
      rw [depth] at h
      have hroom : ctx.kinds.length < containerStackMax := by
        rw [UbjwContext.kinds_length]
        omega
      exact (kinds_contentWritten_buffer data ctx).trans (pushed_of_room hroom)

theorem kinds_writeItems : ∀ (vs : List Value) {ctx : UbjwContext},
    ctx.height + depthItems vs ≤ containerStackMax → (Writer.writeItems vs ctx).kinds = ctx.kinds
  | [], _, _ => rfl
  | v :: vs, ctx, h => by
      rw [depthItems] at h
      have hv := kinds_writeTagged v (by omega : ctx.height + depth v ≤ containerStackMax)
      have hheight := height_of_kinds hv
      rw [writeItems_cons, kinds_writeItems vs (by rw [hheight]; omega), hv]

theorem kinds_writeFields : ∀ (fs : List (Bytes × Value)) {ctx : UbjwContext},
    ctx.height + depthFields fs ≤ containerStackMax → (Writer.writeFields fs ctx).kinds = ctx.kinds
  | [], _, _ => rfl
  | (key, v) :: fs, ctx, h => by
      rw [depthFields] at h
      have hkey := height_keyed key ctx
      have hv := kinds_writeTagged v
        (by rw [hkey]; omega : (keyed key ctx).height + depth v ≤ containerStackMax)
      have hheight := height_of_kinds hv
      rw [writeFields_cons, kinds_writeFields fs (by rw [hheight, hkey]; omega), hv, kinds_keyed]

end

/-! ## Without room -/

mutual

/-- The stack never gets higher. -/
theorem height_writeTagged_le : ∀ (v : Value) (ctx : UbjwContext),
    (Writer.writeTagged v ctx).height ≤ ctx.height
  | .object fields, ctx => by
      have hcontent := height_contentWritten_le (.object fields) rfl ctx
      have hpushed := pushed_length_le (openedKind (.object fields)) ctx.kinds
      rw [UbjwContext.kinds_length] at hpushed
      rw [height_container rfl]
      omega
  | .array items, ctx => by
      have hcontent := height_contentWritten_le (.array items) rfl ctx
      have hpushed := pushed_length_le (openedKind (.array items)) ctx.kinds
      rw [UbjwContext.kinds_length] at hpushed
      rw [height_container rfl]
      omega
  | .buffer data, ctx => by
      have hcontent := height_contentWritten_le (.buffer data) rfl ctx
      have hpushed := pushed_length_le (openedKind (.buffer data)) ctx.kinds
      rw [UbjwContext.kinds_length] at hpushed
      rw [height_container rfl]
      omega
  | .null, _ => Nat.le_of_eq (height_of_kinds (kinds_scalar rfl _))
  | .bool _, _ => Nat.le_of_eq (height_of_kinds (kinds_scalar rfl _))
  | .int32 _, _ => Nat.le_of_eq (height_of_kinds (kinds_scalar rfl _))
  | .int64 _, _ => Nat.le_of_eq (height_of_kinds (kinds_scalar rfl _))
  | .float32 _, _ => Nat.le_of_eq (height_of_kinds (kinds_scalar rfl _))
  | .float64 _, _ => Nat.le_of_eq (height_of_kinds (kinds_scalar rfl _))
  | .string _, _ => Nat.le_of_eq (height_of_kinds (kinds_scalar rfl _))

theorem height_contentWritten_le : ∀ (v : Value), v.isContainer = true → ∀ ctx : UbjwContext,
    (contentWritten v ctx).height ≤ (pushed (openedKind v) ctx.kinds).length
  | .object fields, _, ctx => by
      have hfields := height_writeFields_le fields (ubjwBeginObject ctx .mixed fields.length)
      rw [contentWritten]
      rw [← UbjwContext.kinds_length (ubjwBeginObject ctx .mixed fields.length),
        kinds_beginObject] at hfields
      exact hfields
  | .array items, _, ctx => by
      have hitems := height_writeItems_le items (ubjwBeginArray ctx .mixed items.length)
      rw [contentWritten]
      rw [← UbjwContext.kinds_length (ubjwBeginArray ctx .mixed items.length),
        kinds_beginArray] at hitems
      exact hitems
  | .buffer data, _, ctx => by
      rw [← UbjwContext.kinds_length, kinds_contentWritten_buffer]

theorem height_writeItems_le : ∀ (vs : List Value) (ctx : UbjwContext),
    (Writer.writeItems vs ctx).height ≤ ctx.height
  | [], _ => Nat.le_refl _
  | v :: vs, ctx => by
      rw [writeItems_cons]
      exact (height_writeItems_le vs _).trans (height_writeTagged_le v ctx)

theorem height_writeFields_le : ∀ (fs : List (Bytes × Value)) (ctx : UbjwContext),
    (Writer.writeFields fs ctx).height ≤ ctx.height
  | [], _ => Nat.le_refl _
  | (key, v) :: fs, ctx => by
      have hv := height_writeTagged_le v (keyed key ctx)
      rw [height_keyed] at hv
      rw [writeFields_cons]
      exact (height_writeFields_le fs _).trans hv

end

mutual

/-- **A value that is nested too deep leaves the stack lower than it was.** -/
theorem height_writeTagged_lt : ∀ (v : Value) {ctx : UbjwContext}, 0 < ctx.height →
    ctx.height ≤ containerStackMax → containerStackMax < ctx.height + depth v →
    (Writer.writeTagged v ctx).height < ctx.height
  | .object fields, ctx, hpos, hle, h => by
      rw [depth] at h
      have hlength := UbjwContext.kinds_length ctx
      have hcontent := height_contentWritten_le (.object fields) rfl ctx
      rw [height_container rfl]
      by_cases hroom : ctx.kinds.length < containerStackMax
      · have hopen := (kinds_beginObject ctx .mixed fields.length).trans (pushed_of_room hroom)
        have hheight : (ubjwBeginObject ctx .mixed fields.length).height = ctx.height + 1 := by
          rw [← UbjwContext.kinds_length, hopen, List.length_cons, hlength]
        have hfields : (contentWritten (.object fields) ctx).height < ctx.height + 1 := by
          rw [contentWritten, ← hheight]
          exact height_writeFields_lt fields (by omega) (by omega) (by omega)
        omega
      · -- nothing is pushed, and something is popped
        rw [pushed, if_neg hroom] at hcontent
        omega
  | .array items, ctx, hpos, hle, h => by
      rw [depth] at h
      have hlength := UbjwContext.kinds_length ctx
      have hcontent := height_contentWritten_le (.array items) rfl ctx
      rw [height_container rfl]
      by_cases hroom : ctx.kinds.length < containerStackMax
      · have hopen := (kinds_beginArray ctx .mixed items.length).trans (pushed_of_room hroom)
        have hheight : (ubjwBeginArray ctx .mixed items.length).height = ctx.height + 1 := by
          rw [← UbjwContext.kinds_length, hopen, List.length_cons, hlength]
        have hitems : (contentWritten (.array items) ctx).height < ctx.height + 1 := by
          rw [contentWritten, ← hheight]
          exact height_writeItems_lt items (by omega) (by omega) (by omega)
        omega
      · rw [pushed, if_neg hroom] at hcontent
        omega
  | .buffer data, ctx, hpos, hle, h => by
      rw [depth] at h
      have hlength := UbjwContext.kinds_length ctx
      have hcontent := height_contentWritten_le (.buffer data) rfl ctx
      have hfull : ¬ ctx.kinds.length < containerStackMax := by omega
      rw [pushed, if_neg hfull] at hcontent
      rw [height_container rfl]
      omega
  | .null, _, _, hle, h => absurd h (Nat.not_lt.mpr hle)
  | .bool _, _, _, hle, h => absurd h (Nat.not_lt.mpr hle)
  | .int32 _, _, _, hle, h => absurd h (Nat.not_lt.mpr hle)
  | .int64 _, _, _, hle, h => absurd h (Nat.not_lt.mpr hle)
  | .float32 _, _, _, hle, h => absurd h (Nat.not_lt.mpr hle)
  | .float64 _, _, _, hle, h => absurd h (Nat.not_lt.mpr hle)
  | .string _, _, _, hle, h => absurd h (Nat.not_lt.mpr hle)

theorem height_writeItems_lt : ∀ (vs : List Value) {ctx : UbjwContext}, 0 < ctx.height →
    ctx.height ≤ containerStackMax → containerStackMax < ctx.height + depthItems vs →
    (Writer.writeItems vs ctx).height < ctx.height
  | [], _, _, hle, h => absurd h (Nat.not_lt.mpr hle)
  | v :: vs, ctx, hpos, hle, h => by
      rw [depthItems] at h
      rw [writeItems_cons]
      by_cases hv : ctx.height + depth v ≤ containerStackMax
      · have hheight := height_of_kinds (kinds_writeTagged v hv)
        have hrest := @height_writeItems_lt vs (Writer.writeTagged v ctx)
        rw [hheight] at hrest
        exact hrest hpos hle (by omega)
      · have hlt := height_writeTagged_lt v hpos hle (by omega)
        exact (height_writeItems_le vs _).trans_lt hlt

theorem height_writeFields_lt : ∀ (fs : List (Bytes × Value)) {ctx : UbjwContext}, 0 < ctx.height →
    ctx.height ≤ containerStackMax → containerStackMax < ctx.height + depthFields fs →
    (Writer.writeFields fs ctx).height < ctx.height
  | [], _, _, hle, h => absurd h (Nat.not_lt.mpr hle)
  | (key, v) :: fs, ctx, hpos, hle, h => by
      rw [depthFields] at h
      rw [writeFields_cons]
      have hkey := height_keyed key ctx
      by_cases hv : (keyed key ctx).height + depth v ≤ containerStackMax
      · have hheight := height_of_kinds (kinds_writeTagged v hv)
        rw [hkey] at hheight
        have hrest := @height_writeFields_lt fs (Writer.writeTagged v (keyed key ctx))
        rw [hheight] at hrest
        exact hrest hpos hle (by omega)
      · have hlt := @height_writeTagged_lt v (keyed key ctx) (by omega) (by omega) (by omega)
        rw [hkey] at hlt
        exact (height_writeFields_le fs _).trans_lt hlt

end

/-! ## Every call -/

/-- A call keeps the stack if there is room for what is nested in the value. -/
theorem stackKept_of_room {v : Value} (hv : v.isContainer = true) {ctx : UbjwContext}
    (h : ctx.height + depth v ≤ containerStackMax) : StackKept v ctx := by
  have hcontent := kinds_contentWritten v hv h
  have hkinds := kinds_writeTagged v h
  have hclosed : (contentWritten v ctx).kinds.head? = some (openedKind v) := by
    rw [hcontent]
    rfl
  refine ⟨height_of_kinds hkinds, hkinds, hclosed, ?_⟩
  rw [writeTagged_container hv]
  exact written_end hclosed

mutual

/-- What is nested in a value is written with the room that is left. -/
theorem calls_room : ∀ (v : Value) {ctx : UbjwContext}, ctx.height + depth v ≤ containerStackMax →
    ∀ call ∈ calls v ctx,
      call.1.isContainer = true ∧ call.2.height + depth call.1 ≤ containerStackMax
  | .object fields, ctx, h, call, hcall => by
      rw [calls] at hcall
      rcases List.mem_cons.mp hcall with rfl | hcall
      · exact ⟨rfl, h⟩
      · rw [depth] at h
        have hopen := (kinds_beginObject ctx .mixed fields.length)
        have hle := pushed_length_le (objectKind .mixed fields.length) ctx.kinds
        rw [← hopen, UbjwContext.kinds_length, UbjwContext.kinds_length] at hle
        exact calls_roomFields fields (by omega) call hcall
  | .array items, ctx, h, call, hcall => by
      rw [calls] at hcall
      rcases List.mem_cons.mp hcall with rfl | hcall
      · exact ⟨rfl, h⟩
      · rw [depth] at h
        have hopen := (kinds_beginArray ctx .mixed items.length)
        have hle := pushed_length_le (arrayKind .mixed items.length) ctx.kinds
        rw [← hopen, UbjwContext.kinds_length, UbjwContext.kinds_length] at hle
        exact calls_roomItems items (by omega) call hcall
  | .buffer data, ctx, h, call, hcall => by
      rw [calls, List.mem_singleton] at hcall
      subst hcall
      exact ⟨rfl, h⟩
  | .null, _, _, _, hcall => by cases hcall
  | .bool _, _, _, _, hcall => by cases hcall
  | .int32 _, _, _, _, hcall => by cases hcall
  | .int64 _, _, _, _, hcall => by cases hcall
  | .float32 _, _, _, _, hcall => by cases hcall
  | .float64 _, _, _, _, hcall => by cases hcall
  | .string _, _, _, _, hcall => by cases hcall

theorem calls_roomItems : ∀ (vs : List Value) {ctx : UbjwContext},
    ctx.height + depthItems vs ≤ containerStackMax →
    ∀ call ∈ callsItems vs ctx,
      call.1.isContainer = true ∧ call.2.height + depth call.1 ≤ containerStackMax
  | [], _, _, _, hcall => by cases hcall
  | v :: vs, ctx, h, call, hcall => by
      rw [depthItems] at h
      rw [callsItems] at hcall
      have hle := height_writeTagged_le v ctx
      rcases List.mem_append.mp hcall with hcall | hcall
      · exact calls_room v (by omega) call hcall
      · exact calls_roomItems vs (by omega) call hcall

theorem calls_roomFields : ∀ (fs : List (Bytes × Value)) {ctx : UbjwContext},
    ctx.height + depthFields fs ≤ containerStackMax →
    ∀ call ∈ callsFields fs ctx,
      call.1.isContainer = true ∧ call.2.height + depth call.1 ≤ containerStackMax
  | [], _, _, _, hcall => by cases hcall
  | (key, v) :: fs, ctx, h, call, hcall => by
      rw [depthFields] at h
      rw [callsFields] at hcall
      have hkey := height_keyed key ctx
      have hle := height_writeTagged_le v (keyed key ctx)
      rcases List.mem_append.mp hcall with hcall | hcall
      · exact calls_room v (by omega) call hcall
      · exact calls_roomFields fs (by omega) call hcall

end

theorem mem_calls {v : Value} (h : v.isContainer = true) (ctx : UbjwContext) :
    (v, ctx) ∈ calls v ctx := by
  cases v with
  | buffer data => exact List.mem_singleton.mpr rfl
  | array items =>
    rw [calls]
    exact List.mem_cons_self ..
  | object fields =>
    rw [calls]
    exact List.mem_cons_self ..
  | _ => cases h

theorem depth_scalar {v : Value} (h : v.isContainer = false) : depth v = 0 := by
  cases v with
  | buffer data => cases h
  | array items => cases h
  | object fields => cases h
  | _ => rfl

/-- A value that is nested too deep for a fresh context. -/
theorem not_stackKept_of_deep {v : Value} (h : containerStackMax ≤ depth v) :
    ¬ StackKept v ubjwOpenCallback := by
  intro hkept
  have hone : ubjwOpenCallback.height = 1 := rfl
  have hlt := @height_writeTagged_lt v ubjwOpenCallback (by rw [hone]; decide)
    (by rw [hone]; decide) (by rw [hone]; omega)
  exact absurd hkept.height (Nat.ne_of_lt hlt)

/-- **When a value is written, every call of `writeObject` and `writeArray` leaves the container
stack as it was and closes the container it opened, exactly if fewer containers are nested in the
value than the stack has places.** -/
theorem stackKept_iff (v : Value) :
    (∀ call ∈ calls v ubjwOpenCallback, StackKept call.1 call.2) ↔ depth v < containerStackMax := by
  constructor
  · intro h
    by_contra hdeep
    by_cases hv : v.isContainer = true
    · exact not_stackKept_of_deep (Nat.not_lt.mp hdeep) (h _ (mem_calls hv ubjwOpenCallback))
    · rw [depth_scalar (Bool.eq_false_iff.mpr hv)] at hdeep
      exact hdeep (by decide)
  · intro h call hcall
    have hone : ubjwOpenCallback.height = 1 := rfl
    obtain ⟨hcontainer, hroom⟩ := calls_room v (by rw [hone]; omega) call hcall
    exact stackKept_of_room hcontainer hroom

/-- So many arrays in one another. -/
def nested : Nat → Value
  | 0 => .array []
  | n + 1 => .array [nested n]

theorem depth_nested (n : Nat) : depth (nested n) = n + 1 := by
  induction n with
  | zero => rfl
  | succ n ih =>
    rw [nested, depth, depthItems, depthItems, ih]
    omega

/-- The 64th array is not put on the stack, and the bottom of the stack is taken in the end. -/
theorem not_stackKept_nested :
    ¬ ∀ call ∈ calls (nested 63) ubjwOpenCallback, StackKept call.1 call.2 := by
  intro h
  have hdeep : containerStackMax ≤ depth (nested 63) := by
    rw [depth_nested]
    decide
  exact not_stackKept_of_deep hdeep (h _ (mem_calls rfl _))

end Zway.Ubj
