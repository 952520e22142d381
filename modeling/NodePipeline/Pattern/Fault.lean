/-!
# Faults of patterns

Why a text is not a pattern.
-/

namespace NodePipeline

inductive PatternFault
  | groupUnclosed | groupUnopened | groupName | groupNameRepeated
  | nothingToRepeat | countUnclosed | countMissing | countTooLarge | countsReversed
  | classUnclosed | rangeReversed | rangeEnd | classEscape
  | escapeUnfinished | escapeUnknown | backreference | lookAround
  | flagUnknown | flagRepeated | flagsUnfinished
  | codePoint | wordBoundaryName | propertyUnknown | notText | tooLarge
deriving DecidableEq

def PatternFault.message : PatternFault → String
  | .groupUnclosed => "unclosed group"
  | .groupUnopened => "unopened group"
  | .groupName => "invalid group name"
  | .groupNameRepeated => "repeated group name"
  | .nothingToRepeat => "repetition operator without expression"
  | .countUnclosed => "unclosed repetition count"
  | .countMissing => "repetition count is empty"
  | .countTooLarge => "repetition count is too large"
  | .countsReversed => "repetition counts are reversed"
  | .classUnclosed => "unclosed character class"
  | .rangeReversed => "range of characters is reversed"
  | .rangeEnd => "range does not end in a character"
  | .classEscape => "escape is not allowed in a character class"
  | .escapeUnfinished => "unfinished escape"
  | .escapeUnknown => "unknown escape"
  | .backreference => "backreferences are not supported"
  | .lookAround => "look-around is not supported"
  | .flagUnknown => "unknown flag"
  | .flagRepeated => "repeated flag"
  | .flagsUnfinished => "unfinished flags"
  | .codePoint => "not a character"
  | .wordBoundaryName => "unknown word boundary"
  | .propertyUnknown => "unknown property of characters"
  | .notText => "pattern can match what is no text"
  | .tooLarge => "pattern is too large"

end NodePipeline
