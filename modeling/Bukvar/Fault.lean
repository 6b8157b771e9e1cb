/-!
# Faults

A fault is a call that the library cannot answer: the caller broke a precondition. Faults
are kept apart from the mistakes of a source text, which have a place in it and a message.
-/

namespace Bukvar

/-- The preconditions that a caller can break. -/
inductive Fault where
  /-- A span was to end before it starts. -/
  | reversedSpan
  /-- A span was to be longer than thirty-two bits can count. -/
  | spanTooLong
  /-- A byte offset lies inside a character. -/
  | insideCharacter
  /-- A buffer without tokens was to be read. -/
  | emptyBuffer
  /-- A buffer that holds tokens already was to be filled. -/
  | bufferInUse
  /-- A line was to be indented deeper than sixteen bits can count. -/
  | tooDeep
  /-- A recursion was given less fuel than its input needs. -/
  | outOfFuel
deriving DecidableEq

end Bukvar
