import ViewEngine.Source
import ViewEngine.Theme.Colour

/-!
# Themes

Named colours, fonts and style presets. A theme document is loaded over what is there: colours are added
to those known, fonts and presets are replaced, and a document that cannot be read changes nothing.
-/

namespace ViewEngine

/-- A named colour, as hexadecimal text. -/
inductive ColourDef where
  | fixed (hex : String)
  | adaptive (light dark : String)
deriving DecidableEq, Repr

inductive Appearance where
  | light
  | dark
deriving DecidableEq, Repr

/-- A named font. -/
structure Font where
  size : Binary64
  weight : Option String := none
  design : Option String := none
deriving DecidableEq, Inhabited

namespace Font

/-- The fields of a font read so far. -/
structure Draft where
  size : Option Binary64 := none
  weight : Option (Option String) := none
  design : Option (Option String) := none

/-- Adds a field to a draft. -/
def Draft.put? (d : Draft) (field : String × Json) : Option Draft :=
  match field.1 with
  | "size" => (Json.fill? d.size field.2.number?).map fun size => { d with size }
  | "weight" =>
    (Json.fill? d.weight (field.2.optional? Json.text?)).map fun weight => { d with weight }
  | "design" =>
    (Json.fill? d.design (field.2.optional? Json.text?)).map fun design => { d with design }
  | _ => some d

/-- The font that a datum is; its size is needed. -/
def ofJson? (j : Json) : Option Font := do
  let fields ← j.record? ["size", "weight", "design"]
  let d ← fields.foldlM Draft.put? {}
  pure { size := ← d.size, weight := d.weight.join, design := d.design.join }

/-- The font as data. -/
def toJson (f : Font) : Json :=
  .object (("size", .double f.size) :: member? "weight" (f.weight.map .string)
    ++ member? "design" (f.design.map .string))

end Font

/-- What a theme document holds. -/
structure ThemeDocument where
  colours : Fields := []
  fonts : Table Font := []
  presets : Table Fields := []

namespace ThemeDocument

/-- The fields of a theme document read so far. -/
structure Draft where
  colours : Option (Option Fields) := none
  fonts : Option (Option (Table Font)) := none
  presets : Option (Option (Table Fields)) := none

/-- Adds a field to a draft. -/
def Draft.put? (d : Draft) (field : String × Json) : Option Draft :=
  match field.1 with
  | "colors" =>
    (Json.fill? d.colours (field.2.optional? Json.fields?)).map fun colours => { d with colours }
  | "fonts" =>
    (Json.fill? d.fonts (field.2.optional? (Json.table? Font.ofJson?))).map fun fonts =>
      { d with fonts }
  | "presets" =>
    (Json.fill? d.presets (field.2.optional? (Json.table? Json.fields?))).map fun presets =>
      { d with presets }
  | _ => some d

/-- The theme document that a datum is; nothing in it is needed. -/
def ofJson? (j : Json) : Option ThemeDocument := do
  let fields ← j.record? ["colors", "fonts", "presets"]
  let d ← fields.foldlM Draft.put? {}
  pure
    { colours := d.colours.join.getD []
      fonts := d.fonts.join.getD []
      presets := d.presets.join.getD [] }

/-- The theme document of a source. -/
def ofSource (source : Source) : Except DocumentError ThemeDocument :=
  source.load ofJson? Source.themeName

end ThemeDocument

/-- A theme. -/
structure Theme where
  colours : Table ColourDef := []
  fonts : Table Font := []
  presets : Table Fields := []

namespace ColourDef

/-- The colour that a value defines: a text, or an object with a light and a dark text. -/
def ofValue? : Value → Option ColourDef
  | .string hex => some (fixed hex)
  | .object fields => do
    let light ← (Table.get? fields "light").bind Value.string?
    let dark ← (Table.get? fields "dark").bind Value.string?
    pure (adaptive light dark)
  | _ => none

/-- The hexadecimal text for an appearance. -/
def hex (c : ColourDef) (appearance : Appearance) : String :=
  match c, appearance with
  | fixed hex, _ => hex
  | adaptive light _, .light => light
  | adaptive _ dark, .dark => dark

end ColourDef

namespace Theme

def setColour (t : Theme) (name : String) (c : ColourDef) : Theme :=
  { t with colours := t.colours.insert name c }

/-- Takes over a theme document. Entries that define no colour are passed over. -/
def update (t : Theme) (d : ThemeDocument) : Theme where
  colours := d.colours.foldl (fun colours e =>
    match ColourDef.ofValue? e.2 with
    | some c => colours.insert e.1 c
    | none => colours) t.colours
  fonts := d.fonts
  presets := d.presets

/-- Loads the theme document of a source over a theme. With an error the theme stays as it is. -/
def load (t : Theme) (source : Source) : Except DocumentError Unit × Theme :=
  match ThemeDocument.ofSource source with
  | .ok d => (.ok (), t.update d)
  | .error e => (.error e, t)

/-- What may be done to a theme. -/
inductive Event where
  | load (source : Source)
  | setColour (name : String) (c : ColourDef)

/-- The theme after an event. -/
def next (t : Theme) : Event → Theme
  | .load source => (t.load source).2
  | .setColour name c => t.setColour name c

/-- The hexadecimal text of a named colour; an unknown name is taken to be such a text itself. -/
def colourHex (t : Theme) (name : String) (appearance : Appearance) : String :=
  match t.colours.get? name with
  | some c => c.hex appearance
  | none => name

def colour (t : Theme) (name : String) (appearance : Appearance) : Colour :=
  Colour.ofHex (t.colourHex name appearance)

/-- Every named colour as it is in the light. -/
def lightColours (t : Theme) : Table String := Table.mapValues (·.hex .light) t.colours

/-- A preset, empty if there is none of that name. -/
def preset (t : Theme) (name : String) : Fields := (t.presets.get? name).getD []

/-- The preset of a node with its inline style over it. -/
def mergedStyle (t : Theme) (style : Option String) (inlineStyle : Option Fields) : Fields :=
  Table.overlay (inlineStyle.getD []) ((style.map t.preset).getD [])

end Theme

end ViewEngine
