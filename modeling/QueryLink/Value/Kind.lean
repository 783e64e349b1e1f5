import QueryLink.Bytes

/-! # Kinds of entries and their tags

An entry starts with one tag byte. Small values fold their payload into the tag itself: a
contiguous range of tags stands for the counts `1, 2, …` of one kind, or for small integers.
Every other value uses the full tag of its kind. -/

namespace QueryLink

/-- What the next entry of a value stream is. -/
inductive Kind where
  | null
  | int
  | float4
  | float8
  | decimal
  | character
  | octet
  | bit
  | date
  | timeOfDay
  | timePoint
  | zonedTimeOfDay
  | zonedTimePoint
  | interval
  | row
  | array
  /-- The mark that ends a sequence of values. -/
  | endOfContents
  deriving Repr, DecidableEq

namespace Kind

/-- The name of a kind in messages. -/
def name : Kind → String
  | null => "NULL"
  | int => "INT"
  | float4 => "FLOAT4"
  | float8 => "FLOAT8"
  | decimal => "DECIMAL"
  | character => "CHARACTER"
  | octet => "OCTET"
  | bit => "BIT"
  | date => "DATE"
  | timeOfDay => "TIME_OF_DAY"
  | timePoint => "TIME_POINT"
  | zonedTimeOfDay => "TIME_OF_DAY_WITH_TIME_ZONE"
  | zonedTimePoint => "TIME_POINT_WITH_TIME_ZONE"
  | interval => "DATETIME_INTERVAL"
  | row => "ROW"
  | array => "ARRAY"
  | endOfContents => "END_OF_CONTENTS"

end Kind

/-! ## Tags -/

namespace Tag

/-- Tags `0x00` to `0x3f` are the integers 0 to 63. -/
def smallInts : Nat := 64

/-- The first of the sixteen tags of the integers -16 to -1. -/
def negativeInts : UInt8 := 0xc0

/-- The lowest integer with a tag of its own. -/
def lowestInt : Int := -16

def null : UInt8 := 0xe8
def int : UInt8 := 0xe9
def float4 : UInt8 := 0xea
def float8 : UInt8 := 0xeb
def compactDecimal : UInt8 := 0xec
def wideDecimal : UInt8 := 0xed
def zonedTimeOfDay : UInt8 := 0xee
def zonedTimePoint : UInt8 := 0xef
def date : UInt8 := 0xf3
def timeOfDay : UInt8 := 0xf4
def timePoint : UInt8 := 0xf5
def interval : UInt8 := 0xf6
def endOfContents : UInt8 := 0xff

end Tag

/-- How the kinds that carry a count are tagged: `most` tags from `base` on stand for the counts
1 to `most`, the tag `full` is followed by the count. -/
structure Counted where
  base : UInt8
  most : Nat
  full : UInt8
  deriving Repr, DecidableEq

namespace Counted

def character : Counted := ⟨0x40, 64, 0xf0⟩
def row : Counted := ⟨0x80, 32, 0xf8⟩
def array : Counted := ⟨0xa0, 32, 0xf9⟩
def octet : Counted := ⟨0xd0, 16, 0xf1⟩
def bit : Counted := ⟨0xe0, 8, 0xf2⟩

/-- Whether `tag` is one of the tags that stand for a count of their own. -/
def embeds (c : Counted) (tag : UInt8) : Bool :=
  c.base ≤ tag && tag.toNat < c.base.toNat + c.most

end Counted

/-- The kind of entry that `tag` starts; `none` for the tags that mean nothing. -/
def Kind.ofTag? (tag : UInt8) : Option Kind :=
  if tag.toNat < Tag.smallInts then some .int
  else if Counted.character.embeds tag then some .character
  else if Counted.row.embeds tag then some .row
  else if Counted.array.embeds tag then some .array
  else if Tag.negativeInts ≤ tag && tag < Counted.octet.base then some .int
  else if Counted.octet.embeds tag then some .octet
  else if Counted.bit.embeds tag then some .bit
  else if tag = Tag.null then some .null
  else if tag = Tag.int then some .int
  else if tag = Tag.float4 then some .float4
  else if tag = Tag.float8 then some .float8
  else if tag = Tag.compactDecimal || tag = Tag.wideDecimal then some .decimal
  else if tag = Tag.zonedTimeOfDay then some .zonedTimeOfDay
  else if tag = Tag.zonedTimePoint then some .zonedTimePoint
  else if tag = Counted.character.full then some .character
  else if tag = Counted.octet.full then some .octet
  else if tag = Counted.bit.full then some .bit
  else if tag = Tag.date then some .date
  else if tag = Tag.timeOfDay then some .timeOfDay
  else if tag = Tag.timePoint then some .timePoint
  else if tag = Tag.interval then some .interval
  else if tag = Counted.row.full then some .row
  else if tag = Counted.array.full then some .array
  else if tag = Tag.endOfContents then some .endOfContents
  else none

end QueryLink
