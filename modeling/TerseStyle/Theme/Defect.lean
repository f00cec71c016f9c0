/-!
# Defects of themes

A theme is read from a file, and a file may hold anything: numbers where texts are expected, lists
where pairs are. Some of that is found when the file is read, some only when an entry is used. A
defect is no mistake of a source, and no message is worded for it.
-/

namespace TerseStyle

/-- What is wrong with the form of a theme. -/
inductive Theme.Defect where
  /-- Neither a list nor an object, or with contents that make no key. -/
  | notEntries
  /-- A list of which some item is no pair. -/
  | notPairs
  /-- Define groups, or the variants of one, that are no object. -/
  | notGroups
  /-- An integer with too many digits. -/
  | longInteger
  /-- Lists and objects inside each other beyond the limit. -/
  | deepNesting
  /-- A final name of a keyframe that is no text. -/
  | keyframeNotText
  /-- A condition that is no text. -/
  | conditionNotText
  /-- A preset that is neither a text nor made of parts. -/
  | presetWithoutParts
  /-- A preset whose parts have names and no order. -/
  | presetWithNamedParts
  /-- A part of a preset that is no text, or a bracket of it that closes or opens nothing. -/
  | presetWithOddPart
  /-- A part inside a block of a preset that is no text, or a block there. -/
  | presetWithOddBlock
  deriving Repr, DecidableEq

end TerseStyle
