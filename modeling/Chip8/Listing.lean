import Chip8.Operation
import Chip8.Text.Hex

namespace Chip8

open Text (hex)

def Operation.mnemonic (op : Operation) (w : Opcode) : String :=
  let x := "V" ++ hex 1 w.x
  let y := "V" ++ hex 1 w.y
  let nn := hex 2 w.nn
  let nnn := hex 3 w.nnn
  match op with
  | .hostRoutine => s!"SYS {nnn}"
  | .clearScreen => "CLS"
  | .ret => "RET"
  | .jump => s!"JP {nnn}"
  | .call => s!"CALL {nnn}"
  | .skipEqualByte => s!"SE {x}, {nn}"
  | .skipUnequalByte => s!"SNE {x}, {nn}"
  | .skipEqual => s!"SE {x}, {y}"
  | .loadByte => s!"LD {x}, {nn}"
  | .addByte => s!"ADD {x}, {nn}"
  | .load => s!"LD {x}, {y}"
  | .or => s!"OR {x}, {y}"
  | .and => s!"AND {x}, {y}"
  | .xor => s!"XOR {x}, {y}"
  | .add => s!"ADD {x}, {y}"
  | .subtract => s!"SUB {x}, {y}"
  | .shiftRight => s!"SHR {x}, {y}"
  | .subtractFrom => s!"SUBN {x}, {y}"
  | .shiftLeft => s!"SHL {x}, {y}"
  | .skipUnequal => s!"SNE {x}, {y}"
  | .loadIndex => s!"LD I, {nnn}"
  | .jumpOffset => s!"JP V0, {nnn}"
  | .random => s!"RND {x}, {nn}"
  | .draw => s!"DRW {x}, {y}, {hex 1 w.n}"
  | .skipHeld => s!"SKP {x}"
  | .skipReleased => s!"SKNP {x}"
  | .loadDelay => s!"LD {x}, DT"
  | .awaitKey => s!"LD {x}, K"
  | .setDelay => s!"LD DT, {x}"
  | .setSound => s!"LD ST, {x}"
  | .addIndex => s!"ADD I, {x}"
  | .loadGlyph => s!"LD F, {x}"
  | .storeDigits => s!"LD B, {x}"
  | .storeRegisters => s!"LD [I], {x}"
  | .loadRegisters => s!"LD {x}, [I]"

def disassemble (w : Opcode) : String :=
  match Operation.decode w with
  | some op => op.mnemonic w
  | none => s!"DW {hex 4 w.toNat}"

structure Listing.Row where
  address : Int
  opcode : Opcode
deriving DecidableEq

def Listing.Row.text (r : Listing.Row) : String :=
  disassemble r.opcode

-- A row for every two bytes. An odd byte at the end is left out.
def listing (origin : Int) : List UInt8 → List Listing.Row
  | high :: low :: rest => ⟨origin, .ofBytes high low⟩ :: listing (origin + 2) rest
  | _ => []

theorem length_listing : (origin : Int) → (image : List UInt8) →
    (listing origin image).length = image.length / 2
  | _, [] => rfl
  | _, [_] => by simp [listing]
  | origin, _ :: _ :: rest => by
    simp only [listing, List.length_cons, length_listing (origin + 2) rest]
    omega

end Chip8
