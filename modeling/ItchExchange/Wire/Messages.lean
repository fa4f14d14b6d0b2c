import ItchExchange.Core.Types

/-!
# The messages of the wire format

The 23 message types of `messages.hpp` with their codes and sizes.  The switch
of `message_length` looks a type byte up among the codes.
-/

namespace ItchExchange.Wire

inductive MsgType where
  | systemEvent
  | stockDirectory
  | stockTradingAction
  | regShoRestriction
  | marketParticipantPosition
  | mwcbDeclineLevel
  | mwcbStatus
  | ipoQuotingPeriodUpdate
  | luldAuctionCollar
  | operationalHalt
  | addOrder
  | addOrderWithMpid
  | orderExecuted
  | orderExecutedWithPrice
  | orderCancel
  | orderDelete
  | orderReplace
  | tradeNonCross
  | crossTrade
  | brokenTrade
  | noii
  | retailPriceImprovement
  | directListingWithCapitalRaise
deriving DecidableEq, Repr

namespace MsgType

/-- The enumerator's value. -/
def code : MsgType → UInt8
  | systemEvent => 'S'.toUInt8
  | stockDirectory => 'R'.toUInt8
  | stockTradingAction => 'H'.toUInt8
  | regShoRestriction => 'Y'.toUInt8
  | marketParticipantPosition => 'L'.toUInt8
  | mwcbDeclineLevel => 'V'.toUInt8
  | mwcbStatus => 'W'.toUInt8
  | ipoQuotingPeriodUpdate => 'K'.toUInt8
  | luldAuctionCollar => 'J'.toUInt8
  | operationalHalt => 'h'.toUInt8
  | addOrder => 'A'.toUInt8
  | addOrderWithMpid => 'F'.toUInt8
  | orderExecuted => 'E'.toUInt8
  | orderExecutedWithPrice => 'C'.toUInt8
  | orderCancel => 'X'.toUInt8
  | orderDelete => 'D'.toUInt8
  | orderReplace => 'U'.toUInt8
  | tradeNonCross => 'P'.toUInt8
  | crossTrade => 'Q'.toUInt8
  | brokenTrade => 'B'.toUInt8
  | noii => 'I'.toUInt8
  | retailPriceImprovement => 'N'.toUInt8
  | directListingWithCapitalRaise => 'O'.toUInt8

/-- The size of the layout struct. -/
def size : MsgType → Nat
  | systemEvent => 12
  | stockDirectory => 39
  | stockTradingAction => 25
  | regShoRestriction => 20
  | marketParticipantPosition => 26
  | mwcbDeclineLevel => 35
  | mwcbStatus => 12
  | ipoQuotingPeriodUpdate => 28
  | luldAuctionCollar => 35
  | operationalHalt => 21
  | addOrder => 36
  | addOrderWithMpid => 40
  | orderExecuted => 31
  | orderExecutedWithPrice => 36
  | orderCancel => 23
  | orderDelete => 19
  | orderReplace => 35
  | tradeNonCross => 44
  | crossTrade => 40
  | brokenTrade => 19
  | noii => 50
  | retailPriceImprovement => 20
  | directListingWithCapitalRaise => 48

/-- Every enumerator. -/
def all : List MsgType :=
  [systemEvent, stockDirectory, stockTradingAction, regShoRestriction,
    marketParticipantPosition, mwcbDeclineLevel, mwcbStatus,
    ipoQuotingPeriodUpdate, luldAuctionCollar, operationalHalt, addOrder,
    addOrderWithMpid, orderExecuted, orderExecutedWithPrice, orderCancel,
    orderDelete, orderReplace, tradeNonCross, crossTrade, brokenTrade, noii,
    retailPriceImprovement, directListingWithCapitalRaise]

/-- The case of a switch over a type byte; `none` is its default. -/
def ofByte? (type : UInt8) : Option MsgType :=
  all.find? fun candidate => decide (candidate.code = type)

theorem ofByte?_code (type : MsgType) : ofByte? type.code = some type := by
  cases type <;> rfl

theorem code_of_ofByte? {byte : UInt8} {type : MsgType}
    (found : ofByte? byte = some type) : type.code = byte := by
  have held := List.find?_some found
  exact of_decide_eq_true held

theorem size_pos (type : MsgType) : 0 < type.size := by
  cases type <;> decide

end MsgType

/-- The longest message. -/
def kMaxMessageLength : Nat := 50

theorem MsgType.size_le (type : MsgType) :
    type.size ≤ kMaxMessageLength := by
  cases type <;> decide

/-- The declared length of a message type; zero when the type is unknown. -/
def messageLength (type : UInt8) : Nat :=
  match MsgType.ofByte? type with
  | some known => known.size
  | none => 0

@[simp]
theorem messageLength_code (type : MsgType) :
    messageLength type.code = type.size := by
  rw [messageLength, MsgType.ofByte?_code]

theorem messageLength_le (type : UInt8) :
    messageLength type ≤ kMaxMessageLength := by
  unfold messageLength
  cases MsgType.ofByte? type with
  | none => exact Nat.zero_le _
  | some known => exact known.size_le

end ItchExchange.Wire
