import ItchExchange.Library.RecordLayout
import ItchExchange.Wire.FrameStream
import ItchExchange.Wire.Views

/-!
# The layout of every message

The structs of `messages.hpp`, member by member.  An accessor of a view loads
one member from where it lies in its struct, which the sizes of the members in
front of it tell.
-/

namespace ItchExchange.Wire

open ItchExchange.Core ByteString

/-! ## Members -/

inductive FieldName where
  | messageType
  | stockLocate
  | trackingNumber
  | timestamp
  | eventCode
  | stock
  | marketCategory
  | financialStatusIndicator
  | roundLotSize
  | roundLotsOnly
  | issueClassification
  | issueSubType
  | authenticity
  | shortSaleThresholdIndicator
  | ipoFlag
  | luldReferencePriceTier
  | etpFlag
  | etpLeverageFactor
  | inverseIndicator
  | tradingState
  | reserved
  | reason
  | regShoAction
  | mpid
  | primaryMarket
  | marketMakerMode
  | marketParticipantState
  | level1
  | level2
  | level3
  | breachedLevel
  | ipoQuotationReleaseTime
  | ipoQuotationReleaseQualifier
  | ipoPrice
  | auctionCollarReferencePrice
  | upperAuctionCollarPrice
  | lowerAuctionCollarPrice
  | auctionCollarExtension
  | marketCode
  | operationalHaltAction
  | orderReferenceNumber
  | buySellIndicator
  | shares
  | price
  | attribution
  | executedShares
  | matchNumber
  | printable
  | executionPrice
  | cancelledShares
  | originalOrderReferenceNumber
  | newOrderReferenceNumber
  | crossPrice
  | crossType
  | pairedShares
  | imbalanceShares
  | imbalanceDirection
  | farPrice
  | nearPrice
  | currentReferencePrice
  | priceVariationIndicator
  | interestFlag
  | openEligibilityStatus
  | minimumAllowablePrice
  | maximumAllowablePrice
  | nearExecutionPrice
  | nearExecutionTime
  | lowerPriceRangeCollar
  | upperPriceRangeCollar
deriving DecidableEq, Repr

/-- The type of a member; an `Alpha<1>` is a character. -/
inductive FieldType where
  | char
  | alpha (width : Nat)
  | beU16
  | beU32
  | beU48
  | beU64
  | price4
  | price8
deriving DecidableEq, Repr

namespace FieldType

def width : FieldType → Nat
  | char => 1
  | alpha width => width
  | beU16 => 2
  | beU32 => 4
  | beU48 => 6
  | beU64 => 8
  | price4 => 4
  | price8 => 8

/-- What an accessor returns. -/
@[reducible]
def Value : FieldType → Type
  | char => UInt8
  | alpha _ => List UInt8
  | beU16 => UInt16
  | beU32 => UInt32
  | beU48 => Timestamp
  | beU64 => UInt64
  | price4 => Price
  | price8 => UInt64

/-- The body of an accessor. -/
def load : (type : FieldType) → List UInt8 → Nat → type.Value
  | char, p, offset => loadBe8 p offset
  | alpha width, p, offset => slice offset width p
  | beU16, p, offset => loadBe16 p offset
  | beU32, p, offset => loadBe32 p offset
  | beU48, p, offset => loadBe48 p offset
  | beU64, p, offset => loadBe64 p offset
  | price4, p, offset => loadBe32 p offset
  | price8, p, offset => loadBe64 p offset

end FieldType

structure Member where
  name : FieldName
  type : FieldType
deriving DecidableEq, Repr

/-! ## The bytes of a member -/

/-- Text in a field: cut to its width, or padded with spaces. -/
def alphaBytes (width : Nat) (text : List UInt8) : List UInt8 :=
  (List.range width).map fun index => text.getD index space

@[simp]
theorem length_alphaBytes (width : Nat) (text : List UInt8) :
    (alphaBytes width text).length = width := by
  simp [alphaBytes]

theorem alphaBytes_self (text : List UInt8) :
    alphaBytes text.length text = text := by
  refine List.ext_getElem (length_alphaBytes _ _) fun index _ inside => ?_
  simp [alphaBytes, List.getElem?_eq_getElem inside]

/-- The time stamps which six bytes hold. -/
def kTimeMask : UInt64 := 0xFFFFFFFFFFFF

theorem toNat_masked (time : UInt64) :
    (time &&& kTimeMask).toNat = time.toNat % 2 ^ 48 := by
  have mask : kTimeMask.toNat = 2 ^ 48 - 1 := rfl
  rw [UInt64.toNat_and, mask, Nat.and_two_pow_sub_one_eq_mod]

/-- Two parts which are put together are the parts of the result. -/
theorem toNat_of_parts (high : UInt16) (low : UInt32) :
    (high.toUInt64 <<< 32 ||| low.toUInt64).toNat =
      high.toNat * 2 ^ 32 + low.toNat := by
  have bound := high.toNat_lt
  have bound' := low.toNat_lt
  have width : (32 : UInt64).toNat % 64 = 32 := rfl
  have room : high.toNat <<< 32 < 2 ^ 64 := by
    rw [Nat.shiftLeft_eq]
    omega
  rw [UInt64.toNat_or, UInt64.toNat_shiftLeft, UInt16.toNat_toUInt64,
    UInt32.toNat_toUInt64, width, Nat.mod_eq_of_lt room,
    ← Nat.shiftLeft_add_eq_or_of_lt bound', Nat.shiftLeft_eq]

/-- A number is taken apart again. -/
theorem parts_of_toNat {time : UInt64} {high low : Nat}
    (smallHigh : high < 256 ^ 2) (smallLow : low < 256 ^ 4)
    (joined : time.toNat = high * 2 ^ 32 + low) :
    ((time &&& kTimeMask) >>> 32).toUInt16.toNat = high ∧
      (time &&& kTimeMask).toUInt32.toNat = low := by
  have small : time.toNat % 2 ^ 48 = high * 2 ^ 32 + low := by omega
  have width : (32 : UInt64).toNat % 64 = 32 := rfl
  rw [UInt64.toNat_toUInt16, UInt64.toNat_shiftRight, UInt64.toNat_toUInt32,
    toNat_masked, small, width, Nat.shiftRight_eq_div_pow]
  omega

section Loads

variable {width offset value : Nat} {p bytes : List UInt8}

/-- A load of what was stored. -/
theorem loadBe_of_slice (fits : offset + width ≤ p.length)
    (small : value < 256 ^ width)
    (stored : slice offset width p = bigBytes width value) :
    loadBe width p offset = value := by
  rw [loadBe_eq fits, stored, bigValue_bigBytes_of_lt small]

/-- A load and a store of the number come back to the bytes. -/
theorem bigBytes_loadBe (size : bytes.length = width) :
    bigBytes width (loadBe width bytes 0) = bytes ∧
      loadBe width bytes 0 < 256 ^ width := by
  have whole : slice 0 width bytes = bytes := by
    rw [slice, List.drop_zero, List.take_of_length_le size.le]
  have fits : 0 + width ≤ bytes.length := by omega
  rw [loadBe_eq fits, whole, ← size]
  exact ⟨bigBytes_bigValue bytes, bigValue_lt bytes⟩

end Loads

namespace FieldType

/-- A value as a field gives it back. -/
def kept : (type : FieldType) → type.Value → type.Value
  | char, value => value
  | alpha width, text => alphaBytes width text
  | beU16, value => value
  | beU32, value => value
  | beU48, time => time &&& kTimeMask
  | beU64, value => value
  | price4, value => value
  | price8, value => value

/-- The bytes which hold a value. -/
def bytes : (type : FieldType) → type.Value → List UInt8
  | char, value => [value]
  | alpha width, text => alphaBytes width text
  | beU16, value => bigBytes 2 value.toNat
  | beU32, value => bigBytes 4 value.toNat
  | beU48, time =>
      bigBytes 2 ((time &&& kTimeMask) >>> 32).toUInt16.toNat ++
        bigBytes 4 (time &&& kTimeMask).toUInt32.toNat
  | beU64, value => bigBytes 8 value.toNat
  | price4, value => bigBytes 4 value.toNat
  | price8, value => bigBytes 8 value.toNat

@[simp]
theorem length_bytes (type : FieldType) (value : type.Value) :
    (type.bytes value).length = type.width := by
  cases type <;> simp [bytes, width]

/-- A load depends on the bytes of the field alone. -/
theorem load_slice (type : FieldType) {p : List UInt8} {offset : Nat}
    (fits : offset + type.width ≤ p.length) :
    type.load (slice offset type.width p) 0 = type.load p offset := by
  have number : ∀ width, offset + width ≤ p.length →
      loadBe width (slice offset width p) 0 = loadBe width p offset := by
    intro width _
    rw [loadBe, RecordLayout.slice_slice (by omega), Nat.add_zero, loadBe]
  cases type with
  | char => exact congrArg UInt8.ofNat (number 1 fits)
  | alpha width =>
      have inside : 0 + width ≤ (alpha width).width := (Nat.zero_add _).le
      exact RecordLayout.slice_slice inside
  | beU16 => exact congrArg UInt16.ofNat (number 2 fits)
  | beU32 => exact congrArg UInt32.ofNat (number 4 fits)
  | beU48 =>
      have high : loadBe16 (slice offset 6 p) 0 = loadBe16 p offset := by
        rw [loadBe16, loadBe, RecordLayout.slice_slice (by omega),
          Nat.add_zero, loadBe16, loadBe]
      have low : loadBe32 (slice offset 6 p) (0 + 2) =
          loadBe32 p (offset + 2) := by
        rw [loadBe32, loadBe, RecordLayout.slice_slice (by omega), loadBe32,
          loadBe]
      change loadBe48 (slice offset 6 p) 0 = loadBe48 p offset
      rw [loadBe48, high, low, loadBe48]
  | beU64 => exact congrArg UInt64.ofNat (number 8 fits)
  | price4 => exact congrArg UInt32.ofNat (number 4 fits)
  | price8 => exact congrArg UInt64.ofNat (number 8 fits)

/-- What a field holds is read back. -/
theorem load_bytes (type : FieldType) (value : type.Value) :
    type.load (type.bytes value) 0 = type.kept value := by
  have number : ∀ {width value : Nat}, value < 256 ^ width →
      loadBe width (bigBytes width value) 0 = value := by
    intro width value small
    refine loadBe_of_slice (by simp) small ?_
    rw [slice, List.drop_zero, List.take_of_length_le (length_bigBytes _ _).le]
  cases type with
  | char =>
      exact (loadBe8_eq (show 0 + 1 ≤ [value].length from le_rfl)).trans rfl
  | alpha width =>
      exact List.take_of_length_le (length_alphaBytes _ _).le
  | beU16 =>
      exact (congrArg UInt16.ofNat (number value.toNat_lt)).trans
        UInt16.ofNat_toNat
  | beU32 =>
      exact (congrArg UInt32.ofNat (number value.toNat_lt)).trans
        UInt32.ofNat_toNat
  | beU48 =>
      have small : (value &&& kTimeMask).toNat < 2 ^ 48 := by
        rw [toNat_masked]
        exact Nat.mod_lt _ (by decide)
      have joined := or_of_parts small
      change loadBe48 (_ ++ _) 0 = value &&& kTimeMask
      generalize value &&& kTimeMask = time at joined
      have high : loadBe16 (bigBytes 2 (time >>> 32).toUInt16.toNat ++
          bigBytes 4 time.toUInt32.toNat) 0 = (time >>> 32).toUInt16 := by
        rw [loadBe16, loadBe_of_slice (by simp)
          (time >>> 32).toUInt16.toNat_lt, UInt16.ofNat_toNat]
        exact List.take_left' (length_bigBytes _ _)
      have low : loadBe32 (bigBytes 2 (time >>> 32).toUInt16.toNat ++
          bigBytes 4 time.toUInt32.toNat) (0 + 2) = time.toUInt32 := by
        rw [loadBe32, loadBe_of_slice (by simp) time.toUInt32.toNat_lt,
          UInt32.ofNat_toNat]
        rw [slice, List.drop_left' (length_bigBytes _ _),
          List.take_of_length_le (length_bigBytes _ _).le]
      rw [loadBe48, high, low]
      exact joined
  | beU64 =>
      exact (congrArg UInt64.ofNat (number value.toNat_lt)).trans
        UInt64.ofNat_toNat
  | price4 =>
      exact (congrArg UInt32.ofNat (number value.toNat_lt)).trans
        UInt32.ofNat_toNat
  | price8 =>
      exact (congrArg UInt64.ofNat (number value.toNat_lt)).trans
        UInt64.ofNat_toNat

/-- A field holds nothing but the value which is loaded from it. -/
theorem bytes_load (type : FieldType) {p : List UInt8}
    (size : p.length = type.width) : type.bytes (type.load p 0) = p := by
  cases type with
  | char =>
      obtain ⟨value, rfl⟩ := List.length_eq_one_iff.mp size
      exact congrArg ([·]) (loadBe8_eq (show 0 + 1 ≤ [value].length from le_rfl))
  | alpha width =>
      have whole : slice 0 width p = p := List.take_of_length_le size.le
      change alphaBytes width (slice 0 width p) = p
      rw [whole, ← show p.length = width from size, alphaBytes_self]
  | beU16 =>
      obtain ⟨same, small⟩ := bigBytes_loadBe size
      exact (congrArg (bigBytes 2)
        (UInt16.toNat_ofNat_of_lt' small)).trans same
  | beU32 =>
      obtain ⟨same, small⟩ := bigBytes_loadBe size
      exact (congrArg (bigBytes 4)
        (UInt32.toNat_ofNat_of_lt' small)).trans same
  | beU48 =>
      have size : p.length = 6 := size
      have high : loadBe16 p 0 = UInt16.ofNat (loadBe 2 (p.take 2) 0) := by
        rw [loadBe16, loadBe, loadBe, slice, slice, List.drop_zero,
          List.drop_zero, List.take_take, Nat.min_self]
      have low : loadBe32 p (0 + 2) = UInt32.ofNat (loadBe 4 (p.drop 2) 0) :=
        rfl
      obtain ⟨sameHigh, smallHigh⟩ := bigBytes_loadBe
        (show (p.take 2).length = 2 by rw [List.length_take]; omega)
      obtain ⟨sameLow, smallLow⟩ := bigBytes_loadBe
        (show (p.drop 2).length = 4 by rw [List.length_drop]; omega)
      have joined := toNat_of_parts (loadBe16 p 0) (loadBe32 p (0 + 2))
      rw [high, low, UInt16.toNat_ofNat_of_lt' smallHigh,
        UInt32.toNat_ofNat_of_lt' smallLow, ← high, ← low] at joined
      obtain ⟨first, second⟩ := parts_of_toNat smallHigh smallLow joined
      change bigBytes 2 ((loadBe48 p 0 &&& kTimeMask) >>> 32).toUInt16.toNat ++
        bigBytes 4 (loadBe48 p 0 &&& kTimeMask).toUInt32.toNat = p
      rw [loadBe48, first, second, sameHigh, sameLow, List.take_append_drop]
  | beU64 =>
      obtain ⟨same, small⟩ := bigBytes_loadBe size
      exact (congrArg (bigBytes 8)
        (UInt64.toNat_ofNat_of_lt' small)).trans same
  | price4 =>
      obtain ⟨same, small⟩ := bigBytes_loadBe size
      exact (congrArg (bigBytes 4)
        (UInt32.toNat_ofNat_of_lt' small)).trans same
  | price8 =>
      obtain ⟨same, small⟩ := bigBytes_loadBe size
      exact (congrArg (bigBytes 8)
        (UInt64.toNat_ofNat_of_lt' small)).trans same

/-- What is loaded from a field fits into it. -/
theorem kept_load (type : FieldType) {p : List UInt8}
    (size : p.length = type.width) :
    type.kept (type.load p 0) = type.load p 0 := by
  rw [← load_bytes, bytes_load type size]

end FieldType

/-! ## Structs -/

/-- The members which every struct begins with. -/
def header : List Member :=
  [⟨.messageType, .char⟩, ⟨.stockLocate, .beU16⟩, ⟨.trackingNumber, .beU16⟩,
    ⟨.timestamp, .beU48⟩]

namespace MsgType

def layout : MsgType → List Member
  | systemEvent =>
      header ++ [⟨.eventCode, .char⟩]
  | stockDirectory =>
      header ++ [⟨.stock, .alpha 8⟩, ⟨.marketCategory, .char⟩,
        ⟨.financialStatusIndicator, .char⟩, ⟨.roundLotSize, .beU32⟩,
        ⟨.roundLotsOnly, .char⟩, ⟨.issueClassification, .char⟩,
        ⟨.issueSubType, .alpha 2⟩, ⟨.authenticity, .char⟩,
        ⟨.shortSaleThresholdIndicator, .char⟩, ⟨.ipoFlag, .char⟩,
        ⟨.luldReferencePriceTier, .char⟩, ⟨.etpFlag, .char⟩,
        ⟨.etpLeverageFactor, .beU32⟩, ⟨.inverseIndicator, .char⟩]
  | stockTradingAction =>
      header ++ [⟨.stock, .alpha 8⟩, ⟨.tradingState, .char⟩, ⟨.reserved, .char⟩,
        ⟨.reason, .alpha 4⟩]
  | regShoRestriction =>
      header ++ [⟨.stock, .alpha 8⟩, ⟨.regShoAction, .char⟩]
  | marketParticipantPosition =>
      header ++ [⟨.mpid, .alpha 4⟩, ⟨.stock, .alpha 8⟩, ⟨.primaryMarket, .char⟩,
        ⟨.marketMakerMode, .char⟩, ⟨.marketParticipantState, .char⟩]
  | mwcbDeclineLevel =>
      header ++ [⟨.level1, .price8⟩, ⟨.level2, .price8⟩, ⟨.level3, .price8⟩]
  | mwcbStatus =>
      header ++ [⟨.breachedLevel, .char⟩]
  | ipoQuotingPeriodUpdate =>
      header ++ [⟨.stock, .alpha 8⟩, ⟨.ipoQuotationReleaseTime, .beU32⟩,
        ⟨.ipoQuotationReleaseQualifier, .char⟩, ⟨.ipoPrice, .price4⟩]
  | luldAuctionCollar =>
      header ++ [⟨.stock, .alpha 8⟩, ⟨.auctionCollarReferencePrice, .price4⟩,
        ⟨.upperAuctionCollarPrice, .price4⟩,
        ⟨.lowerAuctionCollarPrice, .price4⟩, ⟨.auctionCollarExtension, .beU32⟩]
  | operationalHalt =>
      header ++ [⟨.stock, .alpha 8⟩, ⟨.marketCode, .char⟩,
        ⟨.operationalHaltAction, .char⟩]
  | addOrder =>
      header ++ [⟨.orderReferenceNumber, .beU64⟩, ⟨.buySellIndicator, .char⟩,
        ⟨.shares, .beU32⟩, ⟨.stock, .alpha 8⟩, ⟨.price, .price4⟩]
  | addOrderWithMpid =>
      header ++ [⟨.orderReferenceNumber, .beU64⟩, ⟨.buySellIndicator, .char⟩,
        ⟨.shares, .beU32⟩, ⟨.stock, .alpha 8⟩, ⟨.price, .price4⟩,
        ⟨.attribution, .alpha 4⟩]
  | orderExecuted =>
      header ++ [⟨.orderReferenceNumber, .beU64⟩, ⟨.executedShares, .beU32⟩,
        ⟨.matchNumber, .beU64⟩]
  | orderExecutedWithPrice =>
      header ++ [⟨.orderReferenceNumber, .beU64⟩, ⟨.executedShares, .beU32⟩,
        ⟨.matchNumber, .beU64⟩, ⟨.printable, .char⟩, ⟨.executionPrice, .price4⟩]
  | orderCancel =>
      header ++ [⟨.orderReferenceNumber, .beU64⟩, ⟨.cancelledShares, .beU32⟩]
  | orderDelete =>
      header ++ [⟨.orderReferenceNumber, .beU64⟩]
  | orderReplace =>
      header ++ [⟨.originalOrderReferenceNumber, .beU64⟩,
        ⟨.newOrderReferenceNumber, .beU64⟩, ⟨.shares, .beU32⟩,
        ⟨.price, .price4⟩]
  | tradeNonCross =>
      header ++ [⟨.orderReferenceNumber, .beU64⟩, ⟨.buySellIndicator, .char⟩,
        ⟨.shares, .beU32⟩, ⟨.stock, .alpha 8⟩, ⟨.price, .price4⟩,
        ⟨.matchNumber, .beU64⟩]
  | crossTrade =>
      header ++ [⟨.shares, .beU64⟩, ⟨.stock, .alpha 8⟩, ⟨.crossPrice, .price4⟩,
        ⟨.matchNumber, .beU64⟩, ⟨.crossType, .char⟩]
  | brokenTrade =>
      header ++ [⟨.matchNumber, .beU64⟩]
  | noii =>
      header ++ [⟨.pairedShares, .beU64⟩, ⟨.imbalanceShares, .beU64⟩,
        ⟨.imbalanceDirection, .char⟩, ⟨.stock, .alpha 8⟩, ⟨.farPrice, .price4⟩,
        ⟨.nearPrice, .price4⟩, ⟨.currentReferencePrice, .price4⟩,
        ⟨.crossType, .char⟩, ⟨.priceVariationIndicator, .char⟩]
  | retailPriceImprovement =>
      header ++ [⟨.stock, .alpha 8⟩, ⟨.interestFlag, .char⟩]
  | directListingWithCapitalRaise =>
      header ++ [⟨.stock, .alpha 8⟩, ⟨.openEligibilityStatus, .char⟩,
        ⟨.minimumAllowablePrice, .price4⟩, ⟨.maximumAllowablePrice, .price4⟩,
        ⟨.nearExecutionPrice, .price4⟩, ⟨.nearExecutionTime, .beU64⟩,
        ⟨.lowerPriceRangeCollar, .price4⟩, ⟨.upperPriceRangeCollar, .price4⟩]

def widths (type : MsgType) : List Nat :=
  type.layout.map fun member => member.type.width

/-- `offsetof`. -/
def offsetOf (type : MsgType) (member : Member) : Nat :=
  RecordLayout.offset type.widths (type.layout.idxOf member)

/-- The members which a view reads; `dispatch` reads the type byte. -/
def accessors (type : MsgType) : List Member :=
  type.layout.tail

/-- A struct has no padding. -/
theorem sum_widths (type : MsgType) : type.widths.sum = type.size := by
  cases type <;> rfl

theorem nodup_layout (type : MsgType) : type.layout.Nodup := by
  cases type <;> decide

theorem layout_eq (type : MsgType) :
    type.layout = ⟨.messageType, .char⟩ :: type.accessors := by
  cases type <;> rfl

theorem mem_layout {type : MsgType} {member : Member}
    (inside : member ∈ type.accessors) : member ∈ type.layout :=
  List.mem_of_mem_tail inside

theorem messageType_ne (type : MsgType) {member : Member}
    (inside : member ∈ type.accessors) :
    (⟨.messageType, .char⟩ : Member) ≠ member := by
  have distinct := type.nodup_layout
  rw [layout_eq, List.nodup_cons] at distinct
  rintro rfl
  exact distinct.1 inside

/-- No accessor reads the type byte. -/
theorem offsetOf_pos {type : MsgType} {member : Member}
    (inside : member ∈ type.accessors) : 0 < type.offsetOf member := by
  have first : RecordLayout.offset type.widths 1 = 1 := by
    cases type <;> rfl
  have behind : 1 ≤ type.layout.idxOf member := by
    rw [layout_eq, List.idxOf_cons_ne _ (type.messageType_ne inside)]
    exact Nat.succ_pos _
  exact Nat.lt_of_lt_of_le Nat.zero_lt_one
    (first.ge.trans (RecordLayout.offset_le behind))

section Places

variable {type : MsgType} {member : Member}

theorem idxOf_lt (inside : member ∈ type.layout) :
    type.layout.idxOf member < type.widths.length := by
  rw [widths, List.length_map]
  exact List.idxOf_lt_length_of_mem inside

theorem widths_idxOf
    (within : type.layout.idxOf member < type.widths.length) :
    type.widths[type.layout.idxOf member] = member.type.width := by
  simp only [widths, List.getElem_map, List.getElem_idxOf]

/-- A member lies within its struct. -/
theorem offsetOf_add_le (inside : member ∈ type.layout) :
    type.offsetOf member + member.type.width ≤ type.size := by
  rw [← type.sum_widths, ← widths_idxOf (idxOf_lt inside)]
  exact RecordLayout.offset_add_le_sum (idxOf_lt inside)

end Places

end MsgType

/-! ## Views -/

structure View (type : MsgType) where
  bytes : List UInt8

/-- The accessor of a member. -/
def View.get {type : MsgType} (view : View type) (member : Member) :
    member.type.Value :=
  member.type.load view.bytes (type.offsetOf member)

/-- `handler.on_xxx`, where the handler has such a method. -/
structure Handler (τ : Type) where
  on : (type : MsgType) → Option (View type → τ → τ)

/-- False for a type byte which is not known. -/
def Handler.dispatch {τ : Type} (handler : Handler τ) (p : List UInt8)
    (target : τ) : Bool × τ :=
  match MsgType.ofByte? (loadBe8 p 0) with
  | some type =>
      match handler.on type with
      | some method => (true, method ⟨p⟩ target)
      | none => (true, target)
  | none => (false, target)

theorem View.get_messageType {type : MsgType} (p : List UInt8) :
    (View.mk p : View type).get ⟨.messageType, .char⟩ = loadBe8 p 0 := by
  cases type <;> rfl

section Write

variable {type : MsgType} {member other : Member} {p : List UInt8}

/-- A member which is written is what its accessor returns. -/
theorem get_write (size : p.length = type.size)
    (inside : member ∈ type.layout) (value : member.type.Value) :
    (View.mk (overwrite (type.offsetOf member) (member.type.bytes value) p) :
      View type).get member = member.type.kept value := by
  have fits := MsgType.offsetOf_add_le inside
  rw [← size] at fits
  have room : type.offsetOf member + (member.type.bytes value).length ≤
      p.length := by rwa [FieldType.length_bytes]
  have written := slice_overwrite_self room
  rw [FieldType.length_bytes] at written
  rw [View.get, ← FieldType.load_slice _
    (by rwa [length_overwrite room]), written, FieldType.load_bytes]

/-- No other accessor sees the difference. -/
theorem get_write_apart (size : p.length = type.size)
    (inside : member ∈ type.layout) (inside' : other ∈ type.layout)
    (different : other ≠ member) (value : member.type.Value) :
    (View.mk (overwrite (type.offsetOf member) (member.type.bytes value) p) :
      View type).get other = (View.mk p : View type).get other := by
  have fits := MsgType.offsetOf_add_le inside
  have fits' := MsgType.offsetOf_add_le inside'
  rw [← size] at fits fits'
  have apart := RecordLayout.slice_overwrite_apart
    (fun same => different ((List.idxOf_inj inside').mp same))
    (MsgType.idxOf_lt inside') (MsgType.idxOf_lt inside)
    (size.trans type.sum_widths.symm)
    ((FieldType.length_bytes _ value).trans
      (MsgType.widths_idxOf (MsgType.idxOf_lt inside)).symm)
  rw [MsgType.widths_idxOf] at apart
  rw [View.get, View.get, ← FieldType.load_slice _ fits',
    ← FieldType.load_slice _ (by
      rwa [length_overwrite (by rwa [FieldType.length_bytes])])]
  exact congrArg (other.type.load · 0) apart

/-- A message is what its accessors return. -/
theorem eq_of_gets {q : List UInt8} (size : p.length = type.size)
    (size' : q.length = type.size)
    (same : ∀ member ∈ type.layout,
      (View.mk p : View type).get member = (View.mk q : View type).get member) :
    p = q := by
  refine RecordLayout.eq_of_slices (size.trans type.sum_widths.symm)
    (size'.trans type.sum_widths.symm) fun index within => ?_
  have inside : index < type.layout.length := by
    rwa [MsgType.widths, List.length_map] at within
  have member := List.getElem_mem inside
  have place : type.offsetOf type.layout[index] =
      RecordLayout.offset type.widths index := by
    rw [MsgType.offsetOf, type.nodup_layout.idxOf_getElem]
  have fits := MsgType.offsetOf_add_le member
  have width : type.widths[index] = type.layout[index].type.width := by
    simp only [MsgType.widths, List.getElem_map]
  have holds : ∀ {bytes : List UInt8}, bytes.length = type.size →
      slice (RecordLayout.offset type.widths index) type.widths[index] bytes =
        type.layout[index].type.bytes
          ((View.mk bytes : View type).get type.layout[index]) := by
    intro bytes size
    rw [View.get, ← FieldType.load_slice _ (by rwa [size]),
      FieldType.bytes_load, place, width]
    rw [length_slice, size]
    omega
  rw [holds size, holds size', same _ member]

end Write

end ItchExchange.Wire
