import ItchExchange.Replay.BookBuilder
import ItchExchange.Wire.FrameGrammar

/-!
# Encoded book messages

The messages which move a book, written by `store_be` and `store_be48` at the
offsets of `messages.hpp`.  A message is stored over arbitrary bytes of its
size, which become the fields that a book builder never reads.  `dispatch`
decodes such a message to the call which it encodes.
-/

namespace ItchExchange.Replay

open ItchExchange.Core ItchExchange.Book ItchExchange.Wire ByteString

/-- The time of a message, and the bytes over which it is stored. -/
structure Envelope (type : MsgType) where
  background : List UInt8
  timestamp : Timestamp
  sized : background.length = type.size
  small : timestamp.toNat < 2 ^ 48

namespace Envelope

variable {type : MsgType}

/-- The fields which every message starts with. -/
def header (envelope : Envelope type) (locate : UInt16) : List UInt8 :=
  storeBe48 envelope.timestamp 5
    (storeBe16 locate 1 (storeBe8 type.code 0 envelope.background))

def headerFields (envelope : Envelope type) (locate : UInt16) :
    List Field :=
  [field8 0 type.code, field16 1 locate,
    field16 5 (envelope.timestamp >>> 32).toUInt16,
    field32 7 envelope.timestamp.toUInt32]

end Envelope

/-! ## The stock directory message -/

/-- A symbol as it can be asked for: it fills a field, without padding. -/
structure TrackedSymbol where
  characters : List UInt8
  nonempty : characters ≠ []
  short : characters.length ≤ 8
  unpadded : characters.getLast nonempty ≠ space

/-- An alpha field: left justified, and padded with spaces. -/
def padAlpha (width : Nat) (text : List UInt8) : List UInt8 :=
  text ++ List.replicate (width - text.length) space

/-- A stock directory message for the symbol. -/
def encodeDirectory (envelope : Envelope .stockDirectory)
    (symbol : TrackedSymbol) (locate : UInt16) : List UInt8 :=
  overwrite 11 (padAlpha 8 symbol.characters) (envelope.header locate)

theorem length_padAlpha {width : Nat} {text : List UInt8}
    (short : text.length ≤ width) :
    (padAlpha width text).length = width := by
  rw [padAlpha, List.length_append, List.length_replicate]
  omega

/-- Trimming takes off the padding, and nothing else. -/
theorem trimAlpha_padAlpha (symbol : TrackedSymbol) (width : Nat) :
    trimAlpha (padAlpha width symbol.characters) = symbol.characters := by
  have unpadded : trimAlpha symbol.characters = symbol.characters := by
    rw [trimAlpha, List.rdropWhile_eq_self_iff]
    intro nonempty padded
    exact symbol.unpadded (of_decide_eq_true padded)
  rw [padAlpha]
  generalize width - symbol.characters.length = count
  induction count with
  | zero => rw [List.replicate_zero, List.append_nil, unpadded]
  | succ count induction =>
      rw [List.replicate_succ', ← List.append_assoc, trimAlpha,
        List.rdropWhile_concat_pos
          (fun character => decide (character = space)) _ _
          (decide_eq_true rfl),
        ← trimAlpha, induction]

/-- A type byte in front of as many bytes as it declares. -/
theorem message_of_type {type : MsgType} {body : List UInt8}
    (length : body.length = type.size)
    (read : loadBe8 body 0 = type.code) : Message body := by
  have long : 0 + 1 ≤ body.length := by
    rw [length]
    exact type.size_pos
  rw [loadBe8_eq long, List.drop_zero] at read
  rw [message_iff_headD, read, messageLength_code, length]
  exact ⟨List.length_pos_iff.mp long, rfl⟩

section Directory

variable (envelope : Envelope .stockDirectory) (symbol : TrackedSymbol)
  (locate : UInt16)

/-- The symbol as a field of eight bytes. -/
def stockField : Field where
  offset := 11
  width := 8
  value := bigValue (padAlpha 8 symbol.characters)
  small := by
    have bound := bigValue_lt (padAlpha 8 symbol.characters)
    rwa [length_padAlpha symbol.short] at bound

theorem encodeDirectory_eq_storeAll :
    encodeDirectory envelope symbol locate =
      storeAll (envelope.headerFields locate ++ [stockField symbol])
        envelope.background := by
  have stock := bigBytes_bigValue (padAlpha 8 symbol.characters)
  rw [length_padAlpha symbol.short] at stock
  have written : (stockField symbol).store (envelope.header locate) =
      overwrite 11 (padAlpha 8 symbol.characters)
        (envelope.header locate) := by
    rw [Field.store, storeBe_eq]
    exact congrArg (overwrite 11 · (envelope.header locate)) stock
  rw [encodeDirectory, ← written, storeAll, List.foldl_append]
  rfl

theorem directory_inside :
    ∀ field ∈ envelope.headerFields locate ++ [stockField symbol],
      field.Inside envelope.background.length := by
  rw [envelope.sized]
  simp [Envelope.headerFields, field8, field16, field32, stockField,
    Field.Inside, MsgType.size]

theorem length_encodeDirectory :
    (encodeDirectory envelope symbol locate).length =
      MsgType.stockDirectory.size := by
  rw [encodeDirectory_eq_storeAll,
    length_storeAll (directory_inside envelope symbol locate),
    envelope.sized]

/-- Every field of an encoded directory message is read back. -/
theorem reads_encodeDirectory :
    Reads (envelope.headerFields locate ++ [stockField symbol])
      (encodeDirectory envelope symbol locate) := by
  rw [encodeDirectory_eq_storeAll]
  refine reads_storeAll (directory_inside envelope symbol locate) ?_
  simp [Envelope.headerFields, field8, field16, field32, stockField,
    Field.Before]

theorem slice_stock :
    slice 11 8 (encodeDirectory envelope symbol locate) =
      padAlpha 8 symbol.characters := by
  have inside : ∀ field ∈ envelope.headerFields locate,
      field.Inside envelope.background.length := fun field member =>
    directory_inside envelope symbol locate field
      (List.mem_append_left _ member)
  have length : (envelope.header locate).length =
      envelope.background.length := length_storeAll inside
  have padded := length_padAlpha symbol.short
  have fits : 11 + (padAlpha 8 symbol.characters).length ≤
      (envelope.header locate).length := by
    rw [padded, length, envelope.sized]
    decide
  have stored := slice_overwrite_self fits
  rwa [padded] at stored

theorem message_encodeDirectory :
    Message (encodeDirectory envelope symbol locate) :=
  message_of_type (length_encodeDirectory envelope symbol locate)
    ((reads_encodeDirectory envelope symbol locate).read8
      (by simp [Envelope.headerFields]))

end Directory

/-! ## The messages which move the book -/

/--
The seven message types which change a book, with the values of their fields.
-/
inductive BookMessage where
  | addOrder (envelope : Envelope .addOrder) (ref : OrderRef) (side : Side)
      (shares : Qty) (price : Price)
  | addOrderWithMpid (envelope : Envelope .addOrderWithMpid)
      (ref : OrderRef) (side : Side) (shares : Qty) (price : Price)
  | orderExecuted (envelope : Envelope .orderExecuted) (ref : OrderRef)
      (executedShares : Qty)
  | orderExecutedWithPrice (envelope : Envelope .orderExecutedWithPrice)
      (ref : OrderRef) (executedShares : Qty)
  | orderCancel (envelope : Envelope .orderCancel) (ref : OrderRef)
      (cancelledShares : Qty)
  | orderDelete (envelope : Envelope .orderDelete) (ref : OrderRef)
  | orderReplace (envelope : Envelope .orderReplace)
      (originalRef newRef : OrderRef) (shares : Qty) (price : Price)

/-- The buy/sell indicator of a side. -/
def indicator : Side → UInt8
  | .buy => 'B'.toUInt8
  | .sell => 'S'.toUInt8

namespace BookMessage

def type : BookMessage → MsgType
  | addOrder .. => .addOrder
  | addOrderWithMpid .. => .addOrderWithMpid
  | orderExecuted .. => .orderExecuted
  | orderExecutedWithPrice .. => .orderExecutedWithPrice
  | orderCancel .. => .orderCancel
  | orderDelete .. => .orderDelete
  | orderReplace .. => .orderReplace

def envelope : (message : BookMessage) → Envelope message.type
  | addOrder envelope .. => envelope
  | addOrderWithMpid envelope .. => envelope
  | orderExecuted envelope .. => envelope
  | orderExecutedWithPrice envelope .. => envelope
  | orderCancel envelope .. => envelope
  | orderDelete envelope .. => envelope
  | orderReplace envelope .. => envelope

/-- The call which a message stands for. -/
def operation : BookMessage → Operation
  | addOrder _ ref side shares price => .add ref side price shares 0
  | addOrderWithMpid _ ref side shares price => .add ref side price shares 0
  | orderExecuted _ ref shares => .execute ref shares
  | orderExecutedWithPrice _ ref shares => .execute ref shares
  | orderCancel _ ref shares => .cancel ref shares
  | orderDelete _ ref => .remove ref
  | orderReplace _ originalRef newRef shares price =>
      .replace originalRef newRef price shares

/-- The shares which a message executes. -/
def executedShares : BookMessage → Qty
  | orderExecuted _ _ shares => shares
  | orderExecutedWithPrice _ _ shares => shares
  | _ => 0

/-- The bytes of a message under a locate. -/
def encode (message : BookMessage) (locate : UInt16) : List UInt8 :=
  let p := message.envelope.header locate
  match message with
  | addOrder _ ref side shares price =>
      storeBe32 price 32 (storeBe32 shares 20
        (storeBe8 (indicator side) 19 (storeBe64 ref 11 p)))
  | addOrderWithMpid _ ref side shares price =>
      storeBe32 price 32 (storeBe32 shares 20
        (storeBe8 (indicator side) 19 (storeBe64 ref 11 p)))
  | orderExecuted _ ref shares => storeBe32 shares 19 (storeBe64 ref 11 p)
  | orderExecutedWithPrice _ ref shares =>
      storeBe32 shares 19 (storeBe64 ref 11 p)
  | orderCancel _ ref shares => storeBe32 shares 19 (storeBe64 ref 11 p)
  | orderDelete _ ref => storeBe64 ref 11 p
  | orderReplace _ originalRef newRef shares price =>
      storeBe32 price 31 (storeBe32 shares 27
        (storeBe64 newRef 19 (storeBe64 originalRef 11 p)))

/-- The fields of a message behind its header. -/
def bodyFields : BookMessage → List Field
  | addOrder _ ref side shares price =>
      [field64 11 ref, field8 19 (indicator side), field32 20 shares,
        field32 32 price]
  | addOrderWithMpid _ ref side shares price =>
      [field64 11 ref, field8 19 (indicator side), field32 20 shares,
        field32 32 price]
  | orderExecuted _ ref shares => [field64 11 ref, field32 19 shares]
  | orderExecutedWithPrice _ ref shares =>
      [field64 11 ref, field32 19 shares]
  | orderCancel _ ref shares => [field64 11 ref, field32 19 shares]
  | orderDelete _ ref => [field64 11 ref]
  | orderReplace _ originalRef newRef shares price =>
      [field64 11 originalRef, field64 19 newRef, field32 27 shares,
        field32 31 price]

variable (message : BookMessage) (locate : UInt16)

def fields : List Field :=
  message.envelope.headerFields locate ++ message.bodyFields

/-- A message is its fields stored over a background. -/
theorem encode_eq_storeAll :
    message.encode locate =
      storeAll (message.fields locate) message.envelope.background := by
  cases message <;> rfl

theorem fields_inside :
    ∀ field ∈ message.fields locate, field.Inside message.type.size := by
  cases message <;>
    simp [fields, Envelope.headerFields, bodyFields, field8, field16,
      field32, field64, Field.Inside, type, MsgType.size]

/-- The fields of a message do not overlap. -/
theorem fields_ordered : (message.fields locate).Pairwise Field.Before := by
  cases message <;>
    simp [fields, Envelope.headerFields, bodyFields, field8, field16,
      field32, field64, Field.Before]

theorem fields_inside_background :
    ∀ field ∈ message.fields locate,
      field.Inside message.envelope.background.length := by
  rw [message.envelope.sized]
  exact message.fields_inside locate

theorem length_encode :
    (message.encode locate).length = message.type.size := by
  rw [encode_eq_storeAll,
    length_storeAll (message.fields_inside_background locate),
    message.envelope.sized]

/-- Every field of an encoded message is read back. -/
theorem reads_encode :
    Reads (message.fields locate) (message.encode locate) := by
  rw [encode_eq_storeAll]
  exact reads_storeAll (message.fields_inside_background locate)
    (message.fields_ordered locate)

theorem read_type :
    loadBe8 (message.encode locate) 0 = message.type.code :=
  (message.reads_encode locate).read8
    (by simp [fields, Envelope.headerFields])

theorem read_stockLocate :
    loadBe16 (message.encode locate) 1 = locate :=
  (message.reads_encode locate).read16
    (by simp [fields, Envelope.headerFields])

theorem read_timestamp :
    loadBe48 (message.encode locate) 5 = message.envelope.timestamp :=
  (message.reads_encode locate).read48 message.envelope.small
    (by simp [fields, Envelope.headerFields])
    (by simp [fields, Envelope.headerFields])

/-- An encoded message is a message of its type. -/
theorem message_encode : Message (message.encode locate) :=
  message_of_type (message.length_encode locate) (message.read_type locate)

end BookMessage

/-! ## Decoding -/

namespace BookBuilder

variable {B O : Type} [OrderBook B] [Observer O B]

/-- What a builder does with a message of its symbol, once it is counted. -/
def perform (builder : BookBuilder B O) :
    BookMessage → Checked (BookBuilder B O)
  | .addOrder envelope ref side shares price =>
      builder.doAdd ref (indicator side) price shares envelope.timestamp
  | .addOrderWithMpid envelope ref side shares price =>
      builder.doAdd ref (indicator side) price shares envelope.timestamp
  | .orderExecuted envelope ref shares =>
      builder.doExecute ref shares envelope.timestamp
  | .orderExecutedWithPrice envelope ref shares =>
      builder.doExecute ref shares envelope.timestamp
  | .orderCancel envelope ref shares =>
      builder.doCancel ref shares envelope.timestamp
  | .orderDelete envelope ref => builder.doDelete ref envelope.timestamp
  | .orderReplace envelope originalRef newRef shares price =>
      builder.doReplace originalRef newRef price shares envelope.timestamp

omit [OrderBook B] [Observer O B] in
theorem whenMine_of_mine {builder : BookBuilder B O} {locate : UInt16}
    (resolved : builder.resolved = true) (same : builder.locate = locate)
    (ts : Timestamp)
    (body : BookBuilder B O → Checked (BookBuilder B O)) :
    builder.whenMine locate ts body = body (builder.seen ts) := by
  have mine : (builder.seen ts).mine locate = true := by
    simp [seen, BookBuilder.mine, resolved, same]
  rw [whenMine, if_pos mine]

/-- Every field is read from where it was stored. -/
theorem dispatch_encode {builder : BookBuilder B O} {locate : UInt16}
    (resolved : builder.resolved = true) (same : builder.locate = locate)
    (message : BookMessage) :
    dispatch (message.encode locate) builder =
      ((builder.seen message.envelope.timestamp).perform message >>=
        fun later => .ok (true, later)) := by
  have reads := message.reads_encode locate
  have stockLocate := message.read_stockLocate locate
  have timestamp := message.read_timestamp locate
  have body {field : Field} (member : field ∈ message.bodyFields) :
      field ∈ message.fields locate :=
    List.mem_append_right _ member
  rw [dispatch, message.read_type, MsgType.ofByte?_code]
  cases message with
  | addOrder envelope ref side qty limit =>
      have orderReferenceNumber : loadBe64 _ 11 = ref :=
        reads.read64 (body (by simp [BookMessage.bodyFields]))
      have buySellIndicator : loadBe8 _ 19 = indicator side :=
        reads.read8 (body (by simp [BookMessage.bodyFields]))
      have shares : loadBe32 _ 20 = qty :=
        reads.read32 (body (by simp [BookMessage.bodyFields]))
      have price : loadBe32 _ 32 = limit :=
        reads.read32 (body (by simp [BookMessage.bodyFields]))
      simp only [BookMessage.type, onAddOrder, AddOrderView.stockLocate,
        AddOrderView.timestamp, AddOrderView.orderReferenceNumber,
        AddOrderView.buySellIndicator, AddOrderView.shares,
        AddOrderView.price, stockLocate, timestamp, orderReferenceNumber,
        buySellIndicator, shares, price, whenMine_of_mine resolved same]
      rfl
  | addOrderWithMpid envelope ref side qty limit =>
      have orderReferenceNumber : loadBe64 _ 11 = ref :=
        reads.read64 (body (by simp [BookMessage.bodyFields]))
      have buySellIndicator : loadBe8 _ 19 = indicator side :=
        reads.read8 (body (by simp [BookMessage.bodyFields]))
      have shares : loadBe32 _ 20 = qty :=
        reads.read32 (body (by simp [BookMessage.bodyFields]))
      have price : loadBe32 _ 32 = limit :=
        reads.read32 (body (by simp [BookMessage.bodyFields]))
      simp only [BookMessage.type, onAddOrderWithMpid,
        AddOrderWithMpidView.stockLocate, AddOrderWithMpidView.timestamp,
        AddOrderWithMpidView.orderReferenceNumber,
        AddOrderWithMpidView.buySellIndicator, AddOrderWithMpidView.shares,
        AddOrderWithMpidView.price, stockLocate, timestamp,
        orderReferenceNumber, buySellIndicator, shares, price,
        whenMine_of_mine resolved same]
      rfl
  | orderExecuted envelope ref shares =>
      have orderReferenceNumber : loadBe64 _ 11 = ref :=
        reads.read64 (body (by simp [BookMessage.bodyFields]))
      have executedShares : loadBe32 _ 19 = shares :=
        reads.read32 (body (by simp [BookMessage.bodyFields]))
      simp only [BookMessage.type, onOrderExecuted,
        OrderExecutedView.stockLocate, OrderExecutedView.timestamp,
        OrderExecutedView.orderReferenceNumber,
        OrderExecutedView.executedShares, stockLocate, timestamp,
        orderReferenceNumber, executedShares, whenMine_of_mine resolved same]
      rfl
  | orderExecutedWithPrice envelope ref shares =>
      have orderReferenceNumber : loadBe64 _ 11 = ref :=
        reads.read64 (body (by simp [BookMessage.bodyFields]))
      have executedShares : loadBe32 _ 19 = shares :=
        reads.read32 (body (by simp [BookMessage.bodyFields]))
      simp only [BookMessage.type, onOrderExecutedWithPrice,
        OrderExecutedWithPriceView.stockLocate,
        OrderExecutedWithPriceView.timestamp,
        OrderExecutedWithPriceView.orderReferenceNumber,
        OrderExecutedWithPriceView.executedShares, stockLocate, timestamp,
        orderReferenceNumber, executedShares, whenMine_of_mine resolved same]
      rfl
  | orderCancel envelope ref shares =>
      have orderReferenceNumber : loadBe64 _ 11 = ref :=
        reads.read64 (body (by simp [BookMessage.bodyFields]))
      have cancelledShares : loadBe32 _ 19 = shares :=
        reads.read32 (body (by simp [BookMessage.bodyFields]))
      simp only [BookMessage.type, onOrderCancel,
        OrderCancelView.stockLocate, OrderCancelView.timestamp,
        OrderCancelView.orderReferenceNumber,
        OrderCancelView.cancelledShares, stockLocate, timestamp,
        orderReferenceNumber, cancelledShares,
        whenMine_of_mine resolved same]
      rfl
  | orderDelete envelope ref =>
      have orderReferenceNumber : loadBe64 _ 11 = ref :=
        reads.read64 (body (by simp [BookMessage.bodyFields]))
      simp only [BookMessage.type, onOrderDelete,
        OrderDeleteView.stockLocate, OrderDeleteView.timestamp,
        OrderDeleteView.orderReferenceNumber, stockLocate, timestamp,
        orderReferenceNumber, whenMine_of_mine resolved same]
      rfl
  | orderReplace envelope originalRef newRef qty limit =>
      have originalOrderReferenceNumber : loadBe64 _ 11 = originalRef :=
        reads.read64 (body (by simp [BookMessage.bodyFields]))
      have newOrderReferenceNumber : loadBe64 _ 19 = newRef :=
        reads.read64 (body (by simp [BookMessage.bodyFields]))
      have shares : loadBe32 _ 27 = qty :=
        reads.read32 (body (by simp [BookMessage.bodyFields]))
      have price : loadBe32 _ 31 = limit :=
        reads.read32 (body (by simp [BookMessage.bodyFields]))
      simp only [BookMessage.type, onOrderReplace,
        OrderReplaceView.stockLocate, OrderReplaceView.timestamp,
        OrderReplaceView.originalOrderReferenceNumber,
        OrderReplaceView.newOrderReferenceNumber, OrderReplaceView.shares,
        OrderReplaceView.price, stockLocate, timestamp,
        originalOrderReferenceNumber, newOrderReferenceNumber, shares, price,
        whenMine_of_mine resolved same]
      rfl

/-- A builder which looks for the symbol finds it, and its locate. -/
theorem dispatch_encodeDirectory {builder : BookBuilder B O}
    {symbol : TrackedSymbol} (unresolved : builder.resolved = false)
    (wanted : builder.symbol = symbol.characters)
    (envelope : Envelope .stockDirectory) (locate : UInt16) :
    dispatch (encodeDirectory envelope symbol locate) builder =
      .ok (true,
        { builder.seen envelope.timestamp with
          locate
          resolved := true }) := by
  have reads := reads_encodeDirectory envelope symbol locate
  have type : loadBe8 _ 0 = MsgType.stockDirectory.code :=
    reads.read8 (by simp [Envelope.headerFields])
  have stockLocate : loadBe16 _ 1 = locate :=
    reads.read16 (by simp [Envelope.headerFields])
  have timestamp : loadBe48 _ 5 = envelope.timestamp :=
    reads.read48 envelope.small (by simp [Envelope.headerFields])
      (by simp [Envelope.headerFields])
  have stock : trimAlpha (StockDirectoryView.stock
      ⟨encodeDirectory envelope symbol locate⟩) = symbol.characters := by
    rw [StockDirectoryView.stock, slice_stock, trimAlpha_padAlpha]
  have still : (builder.seen envelope.timestamp).resolved = false :=
    unresolved
  have symbolStill : (builder.seen envelope.timestamp).symbol =
      symbol.characters := wanted
  rw [dispatch, type, MsgType.ofByte?_code]
  simp only [onStockDirectory, StockDirectoryView.timestamp,
    StockDirectoryView.stockLocate, timestamp, stockLocate, stock, still,
    symbolStill, Bool.false_eq_true, if_false, or_true, if_true]
  rw [← symbolStill]
  rfl

end BookBuilder

end ItchExchange.Replay
