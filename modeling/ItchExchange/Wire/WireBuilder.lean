import ItchExchange.Wire.Layouts

/-!
# Feeds which are built by hand

`WireBuilder` of `wire_builder.hpp` appends frames of zeros and puts fields into
them.  What is put into any of its messages, in whatever order, is what the
views return when the feed is read; and a feed which is built from what the
views return is the feed which was read.
-/

namespace ItchExchange.Wire

open ItchExchange.Core ByteString

/-! ## The builder -/

structure WireBuilder where
  buf : List UInt8 := []
deriving DecidableEq, Repr

namespace WireBuilder

/--
Appends a frame of this type whose body is zero but for the type byte.  The
number is the place of the body.
-/
def begin (builder : WireBuilder) (type : UInt8) :
    Checked (Nat × WireBuilder) := do
  let len := messageLength type
  assertMsg (len > 0) "cannot build a message of an unknown type"
  let start := builder.buf.length
  let buf := builder.buf ++ List.replicate (kLengthPrefixSize + len) 0
  let buf := storeBe16 (UInt16.ofNat len) start buf
  let body := start + kLengthPrefixSize
  pure (body, { buf := buf.set body type })

section Put

variable (builder : WireBuilder) (body fieldOffset : Nat)

def put16 (value : UInt16) : WireBuilder where
  buf := storeBe16 value (body + fieldOffset) builder.buf

def put32 (value : UInt32) : WireBuilder where
  buf := storeBe32 value (body + fieldOffset) builder.buf

def put64 (value : UInt64) : WireBuilder where
  buf := storeBe64 value (body + fieldOffset) builder.buf

def putBe48 (value : UInt64) : WireBuilder where
  buf := storeBe48 (value &&& kTimeMask) (body + fieldOffset) builder.buf

def putChar (value : UInt8) : WireBuilder where
  buf := builder.buf.set (body + fieldOffset) value

/-- Left justified, and padded with spaces. -/
def putAlpha (width : Nat) (text : List UInt8) : WireBuilder where
  buf := (List.range width).foldl
    (fun buf index =>
      buf.set (body + fieldOffset + index) (text.getD index space))
    builder.buf

/-- The call which puts a field of this type. -/
def put : (type : FieldType) → type.Value → WireBuilder
  | .char, value => builder.putChar body fieldOffset value
  | .alpha width, text => builder.putAlpha body fieldOffset width text
  | .beU16, value => builder.put16 body fieldOffset value
  | .beU32, value => builder.put32 body fieldOffset value
  | .beU48, time => builder.putBe48 body fieldOffset time
  | .beU64, value => builder.put64 body fieldOffset value
  | .price4, value => builder.put32 body fieldOffset value
  | .price8, value => builder.put64 body fieldOffset value

/-- A call overwrites the bytes of the field. -/
theorem put_eq_overwrite (type : FieldType) (value : type.Value)
    (fits : body + fieldOffset + type.width ≤ builder.buf.length) :
    builder.put body fieldOffset type value =
      { buf := overwrite (body + fieldOffset) (type.bytes value)
          builder.buf } := by
  rw [put.eq_def]
  cases type with
  | char =>
      exact congrArg WireBuilder.mk (RecordLayout.set_eq_overwrite fits)
  | alpha width =>
      exact congrArg WireBuilder.mk (RecordLayout.foldl_set_range _ fits)
  | beU16 => exact congrArg WireBuilder.mk (storeBe_eq _)
  | beU32 => exact congrArg WireBuilder.mk (storeBe_eq _)
  | beU48 =>
      refine congrArg WireBuilder.mk ?_
      have fits : body + fieldOffset + 6 ≤ builder.buf.length := fits
      generalize body + fieldOffset = place at fits
      have joined := RecordLayout.overwrite_overwrite
        (show place + (bigBytes 2
            ((value &&& kTimeMask) >>> 32).toUInt16.toNat).length +
          (bigBytes 4 (value &&& kTimeMask).toUInt32.toNat).length ≤
            builder.buf.length by simpa using fits)
      rw [length_bigBytes] at joined
      rw [storeBe48, storeBe32, storeBe16, storeBe_eq, storeBe_eq]
      exact joined
  | beU64 => exact congrArg WireBuilder.mk (storeBe_eq _)
  | price4 => exact congrArg WireBuilder.mk (storeBe_eq _)
  | price8 => exact congrArg WireBuilder.mk (storeBe_eq _)

end Put

/-! ## Frames -/

/-- The body of a message which was begun. -/
def blank (type : MsgType) : List UInt8 :=
  type.code :: List.replicate (type.size - 1) 0

theorem length_blank (type : MsgType) : (blank type).length = type.size := by
  have positive := type.size_pos
  rw [blank, List.length_cons, List.length_replicate]
  omega

theorem begin_eq (builder : WireBuilder) (type : MsgType) :
    builder.begin type.code =
      .ok (builder.buf.length + kLengthPrefixSize,
        { buf := builder.buf ++ frameOf (blank type) }) := by
  have few := type.size_le
  have small : (UInt16.ofNat type.size).toNat = type.size :=
    UInt16.toNat_ofNat_of_lt' (few.trans_lt (by decide))
  obtain ⟨rest, size⟩ := Nat.exists_eq_succ_of_ne_zero type.size_pos.ne'
  have zeros : List.replicate type.size (0 : UInt8) =
      0 :: List.replicate (type.size - 1) 0 := by
    rw [size]
    rfl
  have stored : storeBe16 (UInt16.ofNat type.size) builder.buf.length
      (builder.buf ++ List.replicate (kLengthPrefixSize + type.size) 0) =
        builder.buf ++ (bigBytes kLengthPrefixSize type.size ++
          List.replicate type.size 0) := by
    have written : overwrite 0 (bigBytes kLengthPrefixSize type.size)
        (List.replicate (kLengthPrefixSize + type.size) (0 : UInt8)) =
          bigBytes kLengthPrefixSize type.size ++
            List.replicate type.size 0 := by
      rw [overwrite, List.take_zero, List.nil_append, Nat.zero_add,
        length_bigBytes, List.drop_replicate, Nat.add_sub_cancel_left]
    have middle := RecordLayout.overwrite_middle builder.buf []
      (show 0 + (bigBytes kLengthPrefixSize type.size).length ≤
        (List.replicate (kLengthPrefixSize + type.size) (0 : UInt8)).length by
          simp)
    rw [storeBe16, storeBe_eq, small]
    rwa [List.append_nil, List.append_nil, Nat.add_zero, written] at middle
  have typed : (builder.buf ++ (bigBytes kLengthPrefixSize type.size ++
      List.replicate type.size 0)).set
        (builder.buf.length + kLengthPrefixSize) type.code =
      builder.buf ++ frameOf (blank type) := by
    rw [List.set_append_right _ _ (Nat.le_add_right _ _),
      Nat.add_sub_cancel_left, List.set_append_right _ _ (by simp),
      length_bigBytes, Nat.sub_self, zeros, List.set_cons_zero, frameOf,
      length_blank, blank]
  rw [begin, messageLength_code]
  dsimp only
  rw [assertMsg, if_pos type.size_pos, ok_bind, stored, typed]
  rfl

/-- A put into a message in the middle of a feed. -/
theorem put_eq (before after : List UInt8) {body : List UInt8}
    {type : MsgType} {member : Member} (size : body.length = type.size)
    (inside : member ∈ type.layout) (value : member.type.Value) :
    put { buf := before ++ frameOf body ++ after }
        (before.length + kLengthPrefixSize) (type.offsetOf member)
        member.type value =
      { buf := before ++
          frameOf (overwrite (type.offsetOf member)
            (member.type.bytes value) body) ++ after } := by
  have fits := MsgType.offsetOf_add_le inside
  have width := member.type.length_bytes value
  have room : type.offsetOf member + (member.type.bytes value).length ≤
      body.length := by rwa [width, size]
  have middle := RecordLayout.overwrite_middle
    (before ++ bigBytes kLengthPrefixSize body.length) after room
  rw [List.length_append, length_bigBytes] at middle
  rw [put_eq_overwrite]
  · refine congrArg WireBuilder.mk ?_
    rw [frameOf, frameOf, length_overwrite room]
    simpa only [List.append_assoc] using middle
  · rw [List.length_append, List.length_append, length_frameOf, size]
    omega

end WireBuilder

/-! ## What a feed shows -/

/-- A message as its view shows it. -/
structure Seen where
  type : MsgType
  values : List (Σ member : Member, member.type.Value)

/-- What all the accessors of a view return. -/
def View.seen {type : MsgType} (view : View type) : Seen where
  type
  values := type.accessors.map fun member => ⟨member, view.get member⟩

/-- A handler with all methods, which keeps what it sees. -/
def watching : Handler (List Seen) where
  on := fun _ => some fun view seen => seen ++ [view.seen]

/-- The loop over a feed, with this handler. -/
def readFeed (feed : List UInt8) :
    Checked (FrameStatus × FrameCursor × List Seen) :=
  forEachFrame { buf := feed }
    (fun seen body => .ok (watching.dispatch body seen).2) []

/-- What a message shows; nothing when its type is not known. -/
def seenOf (body : List UInt8) : Option Seen :=
  (MsgType.ofByte? (loadBe8 body 0)).map fun type =>
    (View.mk body : View type).seen

theorem watching_dispatch (body : List UInt8) (seen : List Seen) :
    (watching.dispatch body seen).2 = seen ++ (seenOf body).toList := by
  rw [Handler.dispatch, seenOf]
  cases MsgType.ofByte? (loadBe8 body 0) with
  | none => exact (List.append_nil seen).symm
  | some type => rfl

/-- Every message of a feed is seen by the view of its type. -/
theorem Splits.readFeed {bytes rest : List UInt8}
    {bodies : List (List UInt8)} (splits : Splits bytes bodies rest)
    {status : FrameStatus} {error : FrameError}
    (stopped : front rest = .stop status error) :
    Wire.readFeed bytes =
      .ok (status, cursorBehind bytes bodies error,
        bodies.filterMap seenOf) := by
  have folded : ∀ (bodies : List (List UInt8)) (seen : List Seen),
      bodies.foldlM (fun seen body =>
        (.ok (watching.dispatch body seen).2 : Checked (List Seen))) seen =
          .ok (seen ++ bodies.filterMap seenOf) := by
    intro bodies
    induction bodies with
    | nil => exact fun seen => congrArg Except.ok (List.append_nil seen).symm
    | cons body rest induction =>
        intro seen
        rw [List.foldlM_cons, ok_bind, induction, watching_dispatch,
          List.append_assoc]
        cases shown : seenOf body with
        | none => rw [List.filterMap_cons_none shown]; rfl
        | some one => rw [List.filterMap_cons_some shown]; rfl
  rw [Wire.readFeed, splits.forEachFrame stopped, folded]
  rfl

/-- A message of a type, by its size and its type byte. -/
structure IsOfType (type : MsgType) (body : List UInt8) : Prop where
  size : body.length = type.size
  code : loadBe8 body 0 = type.code

/-- A message has the type and the size which its first byte declares. -/
theorem message_iff_isOfType {body : List UInt8} :
    Message body ↔ ∃ type, IsOfType type body := by
  rw [message_iff_headD]
  constructor
  · rintro ⟨nonempty, declared⟩
    have long : 0 + 1 ≤ body.length := List.length_pos_iff.mpr nonempty
    have first := loadBe8_eq long
    rw [List.drop_zero] at first
    rw [← first] at declared
    unfold messageLength at declared
    cases known : MsgType.ofByte? (loadBe8 body 0) with
    | none =>
        rw [known] at declared
        exact absurd declared.symm (Nat.ne_of_gt long)
    | some type =>
        rw [known] at declared
        exact ⟨type, declared.symm, (MsgType.code_of_ofByte? known).symm⟩
  · rintro ⟨type, size, code⟩
    have long : 0 + 1 ≤ body.length := size ▸ type.size_pos
    have first := loadBe8_eq long
    rw [List.drop_zero] at first
    rw [← first, code, messageLength_code, size]
    exact ⟨List.length_pos_iff.mp long, rfl⟩

theorem IsOfType.seenOf {type : MsgType} {body : List UInt8}
    (isOfType : IsOfType type body) :
    Wire.seenOf body = some (View.mk body : View type).seen := by
  rw [Wire.seenOf, isOfType.code, MsgType.ofByte?_code]
  rfl

/-! ## Messages in the making -/

/-- A message, and what was put into it last. -/
structure Draft where
  type : MsgType
  record : (member : Member) → member.type.Value

namespace Draft

/-- What the zeros of a message show. -/
def begun (type : MsgType) : Draft where
  type
  record := fun member =>
    member.type.load (List.replicate member.type.width 0) 0

def put (draft : Draft) (member : Member) (value : member.type.Value) :
    Draft where
  type := draft.type
  record := Function.update draft.record member value

/-- What the fields make of these values. -/
def seen (draft : Draft) : Seen where
  type := draft.type
  values := draft.type.accessors.map fun member =>
    ⟨member, member.type.kept (draft.record member)⟩

/-- The body shows the draft. -/
structure Shows (body : List UInt8) (draft : Draft) : Prop where
  isOfType : IsOfType draft.type body
  values : ∀ member ∈ draft.type.accessors,
    (View.mk body : View draft.type).get member =
      member.type.kept (draft.record member)

theorem Shows.seenOf {body : List UInt8} {draft : Draft}
    (shows : Shows body draft) : Wire.seenOf body = some draft.seen := by
  rw [shows.isOfType.seenOf, View.seen, seen]
  congr 2
  exact List.map_congr_left fun member inside => by
    rw [shows.values member inside]

theorem shows_begun (type : MsgType) :
    Shows (WireBuilder.blank type) (begun type) where
  isOfType := by
    refine ⟨WireBuilder.length_blank type, ?_⟩
    rw [loadBe8_eq ((Nat.zero_add 1).trans_le
      (type.size_pos.trans_eq (WireBuilder.length_blank type).symm))]
    rfl
  values := by
    intro member inside
    have inside : member ∈ type.accessors := inside
    have behind := MsgType.offsetOf_pos inside
    have fits := MsgType.offsetOf_add_le (MsgType.mem_layout inside)
    have zeros : slice (type.offsetOf member) member.type.width
        (WireBuilder.blank type) =
          List.replicate member.type.width 0 := by
      obtain ⟨place, same⟩ := Nat.exists_eq_succ_of_ne_zero behind.ne'
      rw [same] at fits ⊢
      rw [slice, WireBuilder.blank, List.drop_succ_cons, List.drop_replicate,
        List.take_replicate]
      congr 1
      omega
    change (View.mk _ : View type).get member = _
    rw [View.get, ← FieldType.load_slice _
      (by rwa [WireBuilder.length_blank]), zeros]
    exact (FieldType.kept_load _ List.length_replicate).symm

theorem Shows.put {body : List UInt8} {draft : Draft}
    (shows : Shows body draft) {member : Member}
    (inside : member ∈ draft.type.accessors) (value : member.type.Value) :
    Shows (overwrite (draft.type.offsetOf member) (member.type.bytes value)
      body) (draft.put member value) := by
  obtain ⟨⟨size, code⟩, values⟩ := shows
  have within := MsgType.mem_layout inside
  have room : draft.type.offsetOf member +
      (member.type.bytes value).length ≤ body.length := by
    rw [FieldType.length_bytes, size]
    exact MsgType.offsetOf_add_le within
  have apart := fun {other : Member} (inside' : other ∈ draft.type.layout)
      (different : other ≠ member) =>
    get_write_apart size within inside' different value
  constructor
  case isOfType =>
    refine ⟨(length_overwrite room).trans size, ?_⟩
    have first := apart (draft.type.layout_eq ▸ List.mem_cons_self)
      (draft.type.messageType_ne inside)
    rw [View.get_messageType, View.get_messageType] at first
    exact first.trans code
  case values =>
    intro other inside'
    by_cases same : other = member
    · subst same
      refine (get_write size within value).trans ?_
      exact congrArg _ (Function.update_self other value draft.record).symm
    · refine (apart (MsgType.mem_layout inside') same).trans
        ((values other inside').trans (congrArg other.type.kept ?_))
      exact (Function.update_of_ne same value draft.record).symm

end Draft

/-! ## Building and reading -/

/-- A call: a new message, or a field of a message which was begun before. -/
inductive Call where
  | begin (type : MsgType)
  | put (message : Nat) (member : Member) (value : member.type.Value)

/-- A builder, with the types and the places of its messages. -/
structure Session where
  builder : WireBuilder := {}
  begun : List (MsgType × Nat) := []

def Session.call (session : Session) : Call → Checked Session
  | .begin type => do
      let (body, builder) ← session.builder.begin type.code
      pure { builder, begun := session.begun ++ [(type, body)] }
  | .put message member value =>
      match session.begun[message]? with
      | none => .error .undefined
      | some (type, body) =>
          .ok { session with
            builder :=
              session.builder.put body (type.offsetOf member) member.type
                value }

/-- A call on the drafts, if its message is there and has the member. -/
def Draft.call? (drafts : List Draft) : Call → Option (List Draft)
  | .begin type => some (drafts ++ [begun type])
  | .put message member value => do
      let draft ← drafts[message]?
      if member ∈ draft.type.accessors then
        some (drafts.set message (draft.put member value))
      else none

/-- The builder holds these bodies, which show the drafts. -/
structure Built (session : Session) (drafts : List Draft)
    (bodies : List (List UInt8)) : Prop where
  buf : session.builder.buf = framed bodies
  length : bodies.length = drafts.length
  begun : session.begun.length = drafts.length
  shows : ∀ {index : Nat} {body : List UInt8} {draft : Draft},
    bodies[index]? = some body → drafts[index]? = some draft →
      Draft.Shows body draft
  place : ∀ {index : Nat} {draft : Draft}, drafts[index]? = some draft →
    session.begun[index]? = some (draft.type,
      (framed (bodies.take index)).length + kLengthPrefixSize)

theorem built_nothing : Built {} [] [] :=
  ⟨rfl, rfl, rfl, fun found => (nomatch found), fun found => (nomatch found)⟩

theorem getElem?_concat_eq_some {α : Type} {elements : List α}
    {last element : α} {index : Nat} :
    (elements ++ [last])[index]? = some element ↔
      elements[index]? = some element ∨
        index = elements.length ∧ last = element := by
  rcases Nat.lt_trichotomy index elements.length with inside | rfl | beyond
  · rw [List.getElem?_append_left inside]
    simp [inside.ne]
  · simp
  · rw [List.getElem?_eq_none (by simp; omega),
      List.getElem?_eq_none beyond.le]
    simp [beyond.ne']

/-- A body of the same size does not move the other ones. -/
theorem length_framed_set {bodies : List (List UInt8)} {index : Nat}
    {body later : List UInt8} (found : bodies[index]? = some body)
    (size : later.length = body.length) (count : Nat) :
    (framed ((bodies.set index later).take count)).length =
      (framed (bodies.take count)).length := by
  obtain ⟨inside, rfl⟩ := List.getElem?_eq_some_iff.mp found
  rw [length_framed, length_framed, List.map_take, List.map_take,
    List.map_set, size]
  congr 2
  have inside' : index <
      (bodies.map fun body => body.length + kLengthPrefixSize).length := by
    rwa [List.length_map]
  have same := List.set_getElem_self inside'
  rwa [List.getElem_map] at same

/-- The frames in front of a message, its own, and those behind it. -/
theorem framed_split {bodies : List (List UInt8)} {index : Nat}
    {body : List UInt8} (found : bodies[index]? = some body) :
    framed bodies = framed (bodies.take index) ++ frameOf body ++
      framed (bodies.drop (index + 1)) := by
  obtain ⟨inside, rfl⟩ := List.getElem?_eq_some_iff.mp found
  rw [List.append_assoc, ← framed_cons, ← List.drop_eq_getElem_cons inside,
    ← framed_append, List.take_append_drop]

theorem Built.begin {session : Session} {drafts : List Draft}
    {bodies : List (List UInt8)} (built : Built session drafts bodies)
    (type : MsgType) :
    Built
      { builder :=
          { buf := session.builder.buf ++ frameOf (WireBuilder.blank type) }
        begun := session.begun ++
          [(type, session.builder.buf.length + kLengthPrefixSize)] }
      (drafts ++ [Draft.begun type])
      (bodies ++ [WireBuilder.blank type]) := by
  obtain ⟨buf, length, begun, shows, place⟩ := built
  constructor
  case buf => rw [buf, framed_append, framed_cons, framed_nil, List.append_nil]
  case length => rw [List.length_append, List.length_append, length]; rfl
  case begun => rw [List.length_append, List.length_append, begun]; rfl
  case shows =>
    intro index body draft found drafted
    rcases getElem?_concat_eq_some.mp found with old | ⟨rfl, rfl⟩
    · have inside := (List.getElem?_eq_some_iff.mp old).1
      rcases getElem?_concat_eq_some.mp drafted with old' | ⟨rfl, -⟩
      · exact shows old old'
      · exact absurd inside (by omega)
    · rcases getElem?_concat_eq_some.mp drafted with old | ⟨-, rfl⟩
      · have inside := (List.getElem?_eq_some_iff.mp old).1
        exact absurd inside (by omega)
      · exact Draft.shows_begun type
  case place =>
    intro index draft drafted
    rw [getElem?_concat_eq_some]
    rcases getElem?_concat_eq_some.mp drafted with old | ⟨rfl, rfl⟩
    · have inside := (List.getElem?_eq_some_iff.mp old).1
      rw [List.take_append_of_le_length (by omega)]
      exact Or.inl (place old)
    · rw [← length, List.take_left, begun, buf]
      exact Or.inr ⟨length, rfl⟩

theorem Built.put {session : Session} {drafts : List Draft}
    {bodies : List (List UInt8)} (built : Built session drafts bodies)
    {message : Nat} {draft : Draft} (drafted : drafts[message]? = some draft)
    {member : Member} (inside : member ∈ draft.type.accessors)
    (value : member.type.Value) :
    ∃ later bodies', session.call (.put message member value) = .ok later ∧
      Built later (drafts.set message (draft.put member value)) bodies' := by
  obtain ⟨buf, length, begun, shows, place⟩ := built
  have within : message < bodies.length := by
    rw [length]
    exact (List.getElem?_eq_some_iff.mp drafted).1
  obtain ⟨body, found⟩ : ∃ body, bodies[message]? = some body :=
    ⟨_, List.getElem?_eq_getElem within⟩
  have shown := shows found drafted
  have put := shown.put inside value
  have size := shown.isOfType.size
  have written := WireBuilder.put_eq (framed (bodies.take message))
    (framed (bodies.drop (message + 1))) size (MsgType.mem_layout inside) value
  generalize overwrite (draft.type.offsetOf member) (member.type.bytes value)
    body = later at put written
  have size' : later.length = body.length :=
    put.isOfType.size.trans size.symm
  refine ⟨_, bodies.set message later, by
    rw [Session.call, place drafted], ?_⟩
  constructor
  case buf =>
    have split := framed_split (List.getElem?_set_self (a := later) within)
    rw [List.take_set_of_le le_rfl, List.drop_set_of_lt (Nat.lt_succ_self _)]
      at split
    rw [← framed_split found, ← buf] at written
    rw [split]
    exact congrArg WireBuilder.buf written
  case length => rw [List.length_set, List.length_set, length]
  case begun => rw [List.length_set, begun]
  case shows =>
    intro index other draft' found' drafted'
    rw [List.getElem?_set] at found' drafted'
    split_ifs at found' drafted' with same
    · cases found'
      cases drafted'
      exact put
    · exact shows found' drafted'
  case place =>
    intro index draft' drafted'
    rw [length_framed_set found size']
    rw [List.getElem?_set] at drafted'
    split_ifs at drafted' with same
    · subst same
      cases drafted'
      exact (place drafted).trans rfl
    · exact place drafted'

/-- Calls on the drafts one after another. -/
def Draft.calls? (drafts : List Draft) (calls : List Call) :
    Option (List Draft) :=
  calls.foldlM Draft.call? drafts

def Session.calls (session : Session) (calls : List Call) : Checked Session :=
  calls.foldlM Session.call session

theorem Built.call {session : Session} {drafts next : List Draft}
    {bodies : List (List UInt8)} (built : Built session drafts bodies)
    {call : Call} (drafted : Draft.call? drafts call = some next) :
    ∃ later bodies', session.call call = .ok later ∧
      Built later next bodies' := by
  cases call with
  | begin type =>
      cases drafted
      refine ⟨_, _, ?_, built.begin type⟩
      rw [Session.call, WireBuilder.begin_eq]
      rfl
  | put message member value =>
      obtain ⟨draft, found, rest⟩ := Option.bind_eq_some_iff.mp drafted
      split_ifs at rest with inside
      cases rest
      exact built.put found inside value

theorem Built.calls {session : Session} {drafts next : List Draft}
    {bodies : List (List UInt8)} (built : Built session drafts bodies)
    {calls : List Call} (drafted : Draft.calls? drafts calls = some next) :
    ∃ later bodies', session.calls calls = .ok later ∧
      Built later next bodies' := by
  induction calls generalizing session drafts bodies with
  | nil =>
      cases drafted
      exact ⟨session, bodies, rfl, built⟩
  | cons call rest induction =>
      rw [Draft.calls?, List.foldlM_cons] at drafted
      obtain ⟨middle, first, others⟩ := Option.bind_eq_some_iff.mp drafted
      obtain ⟨later, bodies', called, built'⟩ := built.call first
      obtain ⟨last, bodies'', ran, built''⟩ := induction built' others
      refine ⟨last, bodies'', ?_, built''⟩
      rw [Session.calls, List.foldlM_cons, called]
      exact ran

theorem Built.forall₂ {session : Session} {drafts : List Draft}
    {bodies : List (List UInt8)} (built : Built session drafts bodies) :
    List.Forall₂ Draft.Shows bodies drafts := by
  refine List.forall₂_of_length_eq_of_get built.length
    fun index inside inside' => ?_
  exact built.shows (List.getElem?_eq_getElem inside)
    (List.getElem?_eq_getElem inside')

/-- Bodies which show drafts are messages, and are seen as the drafts. -/
theorem seen_of_shows {bodies : List (List UInt8)} {drafts : List Draft}
    (shows : List.Forall₂ Draft.Shows bodies drafts) :
    (∀ body ∈ bodies, Message body) ∧
      bodies.filterMap seenOf = drafts.map Draft.seen := by
  induction shows with
  | nil => exact ⟨fun _ member => absurd member List.not_mem_nil, rfl⟩
  | cons here _ induction =>
      obtain ⟨messages, seen⟩ := induction
      refine ⟨List.forall_mem_cons.mpr
        ⟨message_iff_isOfType.mpr ⟨_, here.isOfType⟩, messages⟩, ?_⟩
      rw [List.filterMap_cons_some here.seenOf, seen, List.map_cons]

/--
A feed which is built by any calls, in any order, is read to its end, and every
view returns what was put into its message last.
-/
theorem readFeed_calls {calls : List Call} {drafts : List Draft}
    (drafted : Draft.calls? [] calls = some drafts) :
    ∃ session cursor, Session.calls {} calls = .ok session ∧
      readFeed session.builder.buf =
        .ok (.endOfInput, cursor, drafts.map Draft.seen) ∧
      cursor.rest = [] := by
  obtain ⟨session, bodies, ran, built⟩ := built_nothing.calls drafted
  obtain ⟨messages, shown⟩ := seen_of_shows built.forall₂
  have splits : Splits session.builder.buf bodies [] :=
    ⟨built.buf.trans (List.append_nil _).symm, messages,
      fun body tail found => nomatch found⟩
  refine ⟨session, cursorBehind session.builder.buf bodies .none, ran, ?_, ?_⟩
  · rw [splits.readFeed rfl, shown]
  · rw [FrameCursor.rest, cursorBehind, built.buf, List.drop_length]

/-- Two messages, whose fields are put in turns and out of order. -/
def interleaved : List Call :=
  [.begin .orderDelete, .begin .systemEvent,
    .put 0 ⟨.orderReferenceNumber, .beU64⟩ (7 : UInt64),
    .put 1 ⟨.eventCode, .char⟩ 'O'.toUInt8,
    .put 0 ⟨.timestamp, .beU48⟩ (0x1000000000005 : UInt64),
    .put 0 ⟨.orderReferenceNumber, .beU64⟩ (9 : UInt64)]

/-- What the two messages show; the time stamp is cut to 48 bits. -/
def interleavedSeen : List Seen :=
  [{ type := .orderDelete
     values :=
      [⟨⟨.stockLocate, .beU16⟩, (0 : UInt16)⟩,
        ⟨⟨.trackingNumber, .beU16⟩, (0 : UInt16)⟩,
        ⟨⟨.timestamp, .beU48⟩, (5 : UInt64)⟩,
        ⟨⟨.orderReferenceNumber, .beU64⟩, (9 : UInt64)⟩] },
    { type := .systemEvent
      values :=
        [⟨⟨.stockLocate, .beU16⟩, (0 : UInt16)⟩,
          ⟨⟨.trackingNumber, .beU16⟩, (0 : UInt16)⟩,
          ⟨⟨.timestamp, .beU48⟩, (0 : UInt64)⟩,
          ⟨⟨.eventCode, .char⟩, 'O'.toUInt8⟩] }]

theorem readFeed_calls_interleaved :
    ∃ session cursor, Session.calls {} interleaved = .ok session ∧
      readFeed session.builder.buf =
        .ok (.endOfInput, cursor, interleavedSeen) ∧
      cursor.rest = [] := by
  obtain ⟨drafts, drafted, seen⟩ : ∃ drafts,
      Draft.calls? [] interleaved = some drafts ∧
        drafts.map Draft.seen = interleavedSeen := ⟨_, rfl, rfl⟩
  exact seen ▸ readFeed_calls drafted

/-! ## Reading and building again -/

/-- A message as a view showed it, built again. -/
def WireBuilder.append (builder : WireBuilder) (seen : Seen) :
    Checked WireBuilder := do
  let (body, builder) ← builder.begin seen.type.code
  pure (seen.values.foldl
    (fun builder value =>
      builder.put body (seen.type.offsetOf value.1) value.1.type value.2)
    builder)

def rebuild (seen : List Seen) : Checked WireBuilder :=
  seen.foldlM WireBuilder.append {}

section Rebuild

variable {type : MsgType} {body : List UInt8}

/-- Puts of what a view shows, member by member. -/
theorem foldl_put_view (isOfType : IsOfType type body) (before : List UInt8)
    {members : List Member} (inside : members ⊆ type.layout)
    {p : List UInt8} (size : p.length = type.size) :
    ∃ later, members.foldl
          (fun builder member =>
            WireBuilder.put builder (before.length + kLengthPrefixSize)
              (type.offsetOf member) member.type
              ((View.mk body : View type).get member))
          { buf := before ++ frameOf p } =
        { buf := before ++ frameOf later } ∧
      later.length = type.size ∧
      ∀ member ∈ type.layout, (View.mk later : View type).get member =
        if member ∈ members then (View.mk body : View type).get member
        else (View.mk p : View type).get member := by
  induction members generalizing p with
  | nil => exact ⟨p, rfl, size, fun member _ => by simp⟩
  | cons first rest induction =>
      obtain ⟨here, others⟩ := List.cons_subset.mp inside
      have written := WireBuilder.put_eq before [] size here
        ((View.mk body : View type).get first)
      rw [List.append_nil, List.append_nil] at written
      have fits := MsgType.offsetOf_add_le here
      have kept : first.type.kept ((View.mk body : View type).get first) =
          (View.mk body : View type).get first := by
        rw [View.get, ← FieldType.load_slice _ (by rwa [isOfType.size])]
        refine FieldType.kept_load _ ?_
        rw [length_slice, isOfType.size]
        omega
      have changed := get_write size here
        ((View.mk body : View type).get first)
      rw [kept] at changed
      have apart := fun {other : Member} (inside' : other ∈ type.layout)
          (different : other ≠ first) => get_write_apart size here inside'
        different ((View.mk body : View type).get first)
      have room : type.offsetOf first + (first.type.bytes
          ((View.mk body : View type).get first)).length ≤ p.length := by
        rwa [FieldType.length_bytes, size]
      have size' := (length_overwrite room).trans size
      obtain ⟨later, built, sized, shown⟩ := induction others size'
      refine ⟨later, ?_, sized, fun member within => ?_⟩
      · rw [List.foldl_cons, written]
        exact built
      · rw [shown member within]
        by_cases again : member ∈ rest
        · rw [if_pos again, if_pos (List.mem_cons_of_mem _ again)]
        by_cases same : member = first
        · subst same
          rw [if_neg again, if_pos List.mem_cons_self]
          exact changed
        · rw [if_neg again, if_neg (by simp [same, again])]
          exact apart within same

/-- A message which is built from its view is the message. -/
theorem WireBuilder.append_seen (isOfType : IsOfType type body)
    (before : List UInt8) :
    append { buf := before } (View.mk body : View type).seen =
      .ok { buf := before ++ frameOf body } := by
  obtain ⟨later, built, sized, shown⟩ := foldl_put_view isOfType before
    (fun _ => MsgType.mem_layout) (length_blank type)
  have same : later = body := by
    refine eq_of_gets sized isOfType.size fun member inside => ?_
    rw [shown member inside]
    split_ifs with accessor
    · rfl
    · rw [MsgType.layout_eq] at inside
      obtain rfl := (List.mem_cons.mp inside).resolve_right accessor
      rw [View.get_messageType, View.get_messageType, isOfType.code]
      exact (Draft.shows_begun type).isOfType.code
  rw [append, View.seen, begin_eq, ok_bind]
  dsimp only
  rw [List.foldl_map, built, same]
  rfl

end Rebuild

theorem rebuild_framed {bodies : List (List UInt8)}
    (messages : ∀ body ∈ bodies, Message body) :
    rebuild (bodies.filterMap seenOf) = .ok { buf := framed bodies } := by
  have appended : ∀ before, (bodies.filterMap seenOf).foldlM
      WireBuilder.append { buf := before } =
        .ok { buf := before ++ framed bodies } := by
    induction bodies with
    | nil => exact fun before => by rw [framed_nil, List.append_nil]; rfl
    | cons body rest induction =>
        intro before
        obtain ⟨here, others⟩ := List.forall_mem_cons.mp messages
        obtain ⟨type, isOfType⟩ := message_iff_isOfType.mp here
        rw [List.filterMap_cons_some isOfType.seenOf, List.foldlM_cons,
          WireBuilder.append_seen isOfType, ok_bind, induction others,
          framed_cons, List.append_assoc]
  exact appended []

/--
Whatever a byte string is, what the views show of it is enough to build all of
it that was consumed as frames again, byte for byte.
-/
theorem rebuild_readFeed (feed : List UInt8) :
    ∃ status cursor seen builder,
      readFeed feed = .ok (status, cursor, seen) ∧
        rebuild seen = .ok builder ∧
        builder.buf = feed.take cursor.offset := by
  obtain ⟨bodies, rest, splits⟩ := exists_splits feed
  cases stopped : front rest with
  | frame body tail => exact absurd stopped (splits.ends body tail)
  | stop status error =>
      refine ⟨_, _, _, _, splits.readFeed stopped,
        rebuild_framed splits.messages, ?_⟩
      rw [FrameCursor.offset, cursorBehind, splits.whole, List.take_left]

end ItchExchange.Wire
