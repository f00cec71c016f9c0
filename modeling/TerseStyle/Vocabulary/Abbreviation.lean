import TerseStyle.Text.Basic

/-!
# Abbreviations

The abbreviations of property names. An abbreviation stands for one property or for two that take
the same value. The abbreviation `ty` is listed, so that nothing else may take its name, but a
declaration of it applies a typography preset of the theme.
-/

namespace TerseStyle

namespace Abbreviation

/-- Rows of the table: an abbreviation and the properties it stands for. -/
abbrev Rows := List (Text × List Text)

/-- Abbreviations that stand for two properties. -/
def twofold : Rows :=
  [
    ("mx", ["margin-left", "margin-right"]), ("my", ["margin-top", "margin-bottom"]),
    ("px", ["padding-left", "padding-right"]), ("py", ["padding-top", "padding-bottom"]),
    ("sq", ["width", "height"]), ("max-sq", ["max-width", "max-height"]),
    ("min-sq", ["min-width", "min-height"]), ("bdx", ["border-left", "border-right"]),
    ("bdy", ["border-top", "border-bottom"]) ]

/-- Alignment, display and the reset of all properties. -/
def alignment : Rows :=
  [
    ("a", ["all"]), ("ac", ["align-content"]), ("ai", ["align-items"]), ("as", ["align-self"]),
    ("d", ["display"]) ]

/-- Animations. -/
def animation : Rows :=
  [
    ("am", ["animation"]), ("am-dl", ["animation-delay"]), ("am-dir", ["animation-direction"]),
    ("am-dur", ["animation-duration"]), ("am-fm", ["animation-fill-mode"]),
    ("am-c", ["animation-iteration-count"]), ("am-n", ["animation-name"]),
    ("am-p", ["animation-play-state"]), ("am-timefun", ["animation-timing-function"]) ]

/-- Backgrounds. -/
def background : Rows :=
  [
    ("bg", ["background-color"]), ("bg-img", ["background-image"]),
    ("bg-ps", ["background-position"]), ("bg-s", ["background-size"]),
    ("bg-r", ["background-repeat"]), ("bg-cp", ["background-clip"]),
    ("bg-o", ["background-origin"]), ("bg-b", ["background-blend-mode"]) ]

/-- Borders and outlines. -/
def border : Rows :=
  [
    ("bd", ["border"]), ("bdl", ["border-left"]), ("bdt", ["border-top"]),
    ("bdr", ["border-right"]), ("bdb", ["border-bottom"]), ("bd-w", ["border-width"]),
    ("bd-c", ["border-color"]), ("bd-st", ["border-style"]), ("bdl-w", ["border-left-width"]),
    ("bdl-c", ["border-left-color"]), ("bdl-st", ["border-left-style"]),
    ("bdt-w", ["border-top-width"]), ("bdt-c", ["border-top-color"]),
    ("bdt-st", ["border-top-style"]), ("bdr-w", ["border-right-width"]),
    ("bdr-c", ["border-right-color"]), ("bdr-st", ["border-right-style"]),
    ("bdb-w", ["border-bottom-width"]), ("bdb-c", ["border-bottom-color"]),
    ("bdb-st", ["border-bottom-style"]), ("bd-s", ["border-spacing"]),
    ("bd-cl", ["border-collapse"]), ("bd-img", ["border-image"]), ("br", ["border-radius"]),
    ("ol", ["outline"]), ("ol-w", ["outline-width"]), ("ol-c", ["outline-color"]),
    ("ol-st", ["outline-style"]), ("ol-ofs", ["outline-offset"]) ]

/-- Shadows and sizing of boxes. -/
def box : Rows :=
  [
    ("sd", ["box-shadow"]), ("bs", ["box-sizing"]) ]

/-- Colour and cursor. -/
def color : Rows :=
  [
    ("c", ["color"]), ("cs", ["cursor"]) ]

/-- Query containers. -/
def container : Rows :=
  [
    ("ctn-type", ["container-type"]), ("ctn", ["container"]), ("ctn-name", ["container-name"]) ]

/-- Columns and gaps. -/
def column : Rows :=
  [
    ("cols", ["columns"]), ("col-gap", ["column-gap"]), ("row-gap", ["row-gap"]), ("gap", ["gap"]) ]

/-- Flexible boxes and grids. -/
def flexAndGrid : Rows :=
  [
    ("fx", ["flex"]), ("fx-b", ["flex-basis"]), ("fx-w", ["flex-wrap"]),
    ("fx-d", ["flex-direction"]), ("fx-f", ["flex-flow"]), ("fx-g", ["flex-grow"]),
    ("fx-s", ["flex-shrink"]), ("gd", ["grid"]), ("gda", ["grid-area"]),
    ("gd-ac", ["grid-auto-columns"]), ("gd-af", ["grid-auto-flow"]), ("gd-ar", ["grid-auto-rows"]),
    ("gd-col", ["grid-column"]), ("gd-ce", ["grid-column-end"]), ("gd-cg", ["grid-column-gap"]),
    ("gd-cs", ["grid-column-start"]), ("gd-gap", ["grid-gap"]), ("gd-row", ["grid-row"]),
    ("gd-re", ["grid-row-end"]), ("gd-rg", ["grid-row-gap"]), ("gd-rs", ["grid-row-start"]),
    ("gd-t", ["grid-template"]), ("gd-ta", ["grid-template-areas"]),
    ("gd-tc", ["grid-template-columns"]), ("gd-tr", ["grid-template-rows"]) ]

/-- Justification and placement. -/
def placement : Rows :=
  [
    ("jc", ["justify-content"]), ("ji", ["justify-items"]), ("js", ["justify-self"]),
    ("pc", ["place-content"]), ("pli", ["place-items"]), ("pls", ["place-self"]) ]

/-- Fonts and text. -/
def typeface : Rows :=
  [
    ("f", ["font"]), ("ty", ["typography"]), ("fm", ["font-family"]), ("fs", ["font-size"]),
    ("fw", ["font-weight"]), ("fst", ["font-style"]), ("fv", ["font-variant"]),
    ("ffs", ["font-feature-settings"]), ("lh", ["line-height"]), ("ls", ["letter-spacing"]),
    ("ws", ["word-spacing"]), ("tx-a", ["text-align"]), ("tx-d", ["text-decoration"]),
    ("tx-i", ["text-indent"]), ("tx-j", ["text-justify"]), ("tx-ovf", ["text-overflow"]),
    ("tx-sd", ["text-shadow"]), ("tx-tf", ["text-transform"]), ("tx-w", ["text-wrap"]),
    ("tx-u-ps", ["text-underline-position"]), ("wb", ["word-break"]), ("tx-ws", ["white-space"]),
    ("tx-sa", ["text-size-adjust"]), ("tx-dl", ["text-decoration-line"]),
    ("tx-dc", ["text-decoration-color"]), ("tx-ds", ["text-decoration-style"]),
    ("tx-dsi", ["text-decoration-skip-ink"]) ]

/-- Filters and blending. -/
def filter : Rows :=
  [
    ("ft", ["filter"]), ("bft", ["backdrop-filter"]), ("-webkit-bft", ["-webkit-backdrop-filter"]),
    ("mbm", ["mix-blend-mode"]) ]

/-- Dimensions, margins and padding. -/
def dimension : Rows :=
  [
    ("w", ["width"]), ("max-w", ["max-width"]), ("min-w", ["min-width"]), ("h", ["height"]),
    ("max-h", ["max-height"]), ("min-h", ["min-height"]), ("hp", ["hyphens"]), ("m", ["margin"]),
    ("ml", ["margin-left"]), ("mt", ["margin-top"]), ("mr", ["margin-right"]),
    ("mb", ["margin-bottom"]), ("p", ["padding"]), ("pl", ["padding-left"]),
    ("pt", ["padding-top"]), ("pr", ["padding-right"]), ("pb", ["padding-bottom"]) ]

/-- Position. -/
def position : Rows :=
  [
    ("ps", ["position"]), ("l", ["left"]), ("t", ["top"]), ("r", ["right"]), ("b", ["bottom"]),
    ("z", ["z-index"]) ]

/-- Replaced elements and aspect ratio. -/
def object : Rows :=
  [
    ("obj-fit", ["object-fit"]), ("obj-ps", ["object-position"]), ("ar", ["aspect-ratio"]) ]

/-- Overflow, scrolling, opacity and pointer events. -/
def overflow : Rows :=
  [
    ("ovf", ["overflow"]), ("ovf-x", ["overflow-x"]), ("ovf-w", ["overflow-wrap"]),
    ("ovf-y", ["overflow-y"]), ("sc-b", ["scroll-behavior"]), ("ovsc-b", ["overscroll-behavior"]),
    ("ovsc-bx", ["overscroll-behavior-x"]), ("ovsc-by", ["overscroll-behavior-y"]),
    ("rs", ["resize"]), ("op", ["opacity"]), ("pe", ["pointer-events"]) ]

/-- Transforms and transitions. -/
def transform : Rows :=
  [
    ("tf", ["transform"]), ("tf-o", ["transform-origin"]), ("tf-b", ["transform-box"]),
    ("tf-s", ["transform-style"]), ("pst", ["perspective"]), ("pst-o", ["perspective-origin"]),
    ("bv", ["backface-visibility"]), ("ts", ["transition"]), ("ts-dl", ["transition-delay"]),
    ("ts-d", ["transition-duration"]), ("ts-p", ["transition-property"]),
    ("ts-f", ["transition-timing-function"]), ("wc", ["will-change"]) ]

/-- Masks and clipping. -/
def mask : Rows :=
  [
    ("mask", ["mask"]), ("mask-img", ["mask-image"]), ("-webkit-mask", ["-webkit-mask"]),
    ("-webkit-mask-img", ["-webkit-mask-image"]), ("cp", ["clip-path"]),
    ("-webkit-cp", ["-webkit-clip-path"]) ]

/-- Appearance and selection by the user. -/
def appearance : Rows :=
  [
    ("app", ["appearance"]), ("-webkit-app", ["-webkit-appearance"]), ("us", ["user-select"]),
    ("-webkit-us", ["-webkit-user-select"]) ]

/-- Content, visibility, direction and emphasis. -/
def miscellany : Rows :=
  [
    ("iso", ["isolation"]), ("ct", ["content"]), ("v", ["visibility"]), ("dr", ["direction"]),
    ("wm", ["writing-mode"]), ("tab", ["tab-size"]), ("q", ["quotes"]),
    ("tx-em-st", ["text-emphasis-style"]), ("tx-em-c", ["text-emphasis-color"]),
    ("tx-em-ps", ["text-emphasis-position"]) ]

/-- Insets. -/
def inset : Rows :=
  [
    ("ins", ["inset"]), ("ins-i", ["inset-inline"]), ("ins-b", ["inset-block"]),
    ("ins-is", ["inset-inline-start"]), ("ins-ie", ["inset-inline-end"]),
    ("ins-bs", ["inset-block-start"]), ("ins-be", ["inset-block-end"]) ]

/-- Containment. -/
def containment : Rows :=
  [
    ("cnt", ["contain"]), ("cnt-s", ["contain-intrinsic-size"]) ]

/-- Scroll snapping. -/
def scrollSnap : Rows :=
  [
    ("sc-st", ["scroll-snap-type"]), ("sc-sa", ["scroll-snap-align"]),
    ("sc-ss", ["scroll-snap-stop"]), ("sc-p", ["scroll-padding"]), ("sc-m", ["scroll-margin"]) ]

/-- Accent and caret colours and colour schemes. -/
def accent : Rows :=
  [
    ("acc", ["accent-color"]), ("caret", ["caret-color"]), ("fca", ["forced-color-adjust"]),
    ("c-scheme", ["color-scheme"]) ]

/-- The whole table. -/
def table : Rows :=
  [
    twofold, alignment, animation, background, border, box, color, container, column, flexAndGrid,
    placement, typeface, filter, dimension, position, object, overflow, transform, mask,
    appearance, miscellany, inset, containment, scrollSnap, accent ].flatten

/-- The properties that an abbreviation stands for. -/
def expand? (name : Text) : Option (List Text) :=
  table.lookup name

/-- Whether a name is an abbreviation. -/
def isKnown (name : Text) : Bool :=
  (expand? name).isSome

end Abbreviation

end TerseStyle
