import Mathlib.Data.List.DropRight
import ItchExchange.Wire.Endian

/-!
# Views

`views.hpp`: a view points at a message, and an accessor loads one field of it
from the offset which `messages.hpp` asserts.  The views and the fields are
those which the book builder reads.
-/

namespace ItchExchange.Wire

open ItchExchange.Core ByteString

/-- The padding of an alpha field. -/
def space : UInt8 := ' '.toUInt8

/-- An alpha field without its padding. -/
def trimAlpha (s : List UInt8) : List UInt8 :=
  s.rdropWhile fun character => decide (character = space)

/-- Stock directory message, `R`. -/
structure StockDirectoryView where
  bytes : List UInt8

namespace StockDirectoryView

variable (v : StockDirectoryView)

def stockLocate : UInt16 := loadBe16 v.bytes 1

def timestamp : Timestamp := loadBe48 v.bytes 5

def stock : List UInt8 := slice 11 8 v.bytes

end StockDirectoryView

/-- Add order without attribution message, `A`. -/
structure AddOrderView where
  bytes : List UInt8

namespace AddOrderView

variable (v : AddOrderView)

def stockLocate : UInt16 := loadBe16 v.bytes 1

def timestamp : Timestamp := loadBe48 v.bytes 5

def orderReferenceNumber : OrderRef := loadBe64 v.bytes 11

def buySellIndicator : UInt8 := loadBe8 v.bytes 19

def shares : Qty := loadBe32 v.bytes 20

def price : Price := loadBe32 v.bytes 32

end AddOrderView

/-- Add order with attribution message, `F`. -/
structure AddOrderWithMpidView where
  bytes : List UInt8

namespace AddOrderWithMpidView

variable (v : AddOrderWithMpidView)

def stockLocate : UInt16 := loadBe16 v.bytes 1

def timestamp : Timestamp := loadBe48 v.bytes 5

def orderReferenceNumber : OrderRef := loadBe64 v.bytes 11

def buySellIndicator : UInt8 := loadBe8 v.bytes 19

def shares : Qty := loadBe32 v.bytes 20

def price : Price := loadBe32 v.bytes 32

end AddOrderWithMpidView

/-- Order executed message, `E`. -/
structure OrderExecutedView where
  bytes : List UInt8

namespace OrderExecutedView

variable (v : OrderExecutedView)

def stockLocate : UInt16 := loadBe16 v.bytes 1

def timestamp : Timestamp := loadBe48 v.bytes 5

def orderReferenceNumber : OrderRef := loadBe64 v.bytes 11

def executedShares : Qty := loadBe32 v.bytes 19

end OrderExecutedView

/-- Order executed with price message, `C`. -/
structure OrderExecutedWithPriceView where
  bytes : List UInt8

namespace OrderExecutedWithPriceView

variable (v : OrderExecutedWithPriceView)

def stockLocate : UInt16 := loadBe16 v.bytes 1

def timestamp : Timestamp := loadBe48 v.bytes 5

def orderReferenceNumber : OrderRef := loadBe64 v.bytes 11

def executedShares : Qty := loadBe32 v.bytes 19

end OrderExecutedWithPriceView

/-- Order cancel message, `X`. -/
structure OrderCancelView where
  bytes : List UInt8

namespace OrderCancelView

variable (v : OrderCancelView)

def stockLocate : UInt16 := loadBe16 v.bytes 1

def timestamp : Timestamp := loadBe48 v.bytes 5

def orderReferenceNumber : OrderRef := loadBe64 v.bytes 11

def cancelledShares : Qty := loadBe32 v.bytes 19

end OrderCancelView

/-- Order delete message, `D`. -/
structure OrderDeleteView where
  bytes : List UInt8

namespace OrderDeleteView

variable (v : OrderDeleteView)

def stockLocate : UInt16 := loadBe16 v.bytes 1

def timestamp : Timestamp := loadBe48 v.bytes 5

def orderReferenceNumber : OrderRef := loadBe64 v.bytes 11

end OrderDeleteView

/-- Order replace message, `U`. -/
structure OrderReplaceView where
  bytes : List UInt8

namespace OrderReplaceView

variable (v : OrderReplaceView)

def stockLocate : UInt16 := loadBe16 v.bytes 1

def timestamp : Timestamp := loadBe48 v.bytes 5

def originalOrderReferenceNumber : OrderRef := loadBe64 v.bytes 11

def newOrderReferenceNumber : OrderRef := loadBe64 v.bytes 19

def shares : Qty := loadBe32 v.bytes 27

def price : Price := loadBe32 v.bytes 31

end OrderReplaceView

/-- Trade message, `P`. -/
structure TradeNonCrossView where
  bytes : List UInt8

namespace TradeNonCrossView

variable (v : TradeNonCrossView)

def stockLocate : UInt16 := loadBe16 v.bytes 1

def timestamp : Timestamp := loadBe48 v.bytes 5

end TradeNonCrossView

/-- Cross trade message, `Q`. -/
structure CrossTradeView where
  bytes : List UInt8

namespace CrossTradeView

variable (v : CrossTradeView)

def stockLocate : UInt16 := loadBe16 v.bytes 1

def timestamp : Timestamp := loadBe48 v.bytes 5

end CrossTradeView

/-- Broken trade message, `B`. -/
structure BrokenTradeView where
  bytes : List UInt8

namespace BrokenTradeView

variable (v : BrokenTradeView)

def stockLocate : UInt16 := loadBe16 v.bytes 1

def timestamp : Timestamp := loadBe48 v.bytes 5

end BrokenTradeView

end ItchExchange.Wire
