import CodeAtlas.Json.Reader
import CodeAtlas.Source.Bytes

/-!
# Sources as records

The bytes of a source are given as text (`source`) or in hexadecimal (`hex`).  Of several records
with the same bytes the last one tells what is known about them.
-/

namespace CodeAtlas.Source

/-- Bytes in hexadecimal. -/
def unhex : List Char → List UInt8
  | a :: b :: rest =>
    UInt8.ofNat ((Json.hexValue? a).getD 0 * 16 + (Json.hexValue? b).getD 0) :: unhex rest
  | _ => []

/-- The bytes of a source. -/
def ofJson (j : Json) : ByteArray :=
  match (j.field "hex").str? with
  | some h => ⟨(unhex h.toList).toArray⟩
  | none => ⟨(Text.bytes ((j.field "source").str?.getD "")).toArray⟩

/-- A text that stands for bytes must have bytes. -/
def checkText (j : Json) : Outcome Unit :=
  discard (encode (j.str?.getD ""))

/-- The texts of the sources in a record, its own and those of its files and chunks, must have
bytes. -/
def check (j : Json) : Outcome Unit :=
  (j :: ((j.field "files").items ++ (j.field "chunks").items)).forM fun r =>
    if (r.field "hex").str?.isSome then .ok () else checkText (r.field "source")

/-- The last of the records with the bytes of `j`. -/
def lastRecord (records : List Json) (j : Json) : Json :=
  (records.reverse.find? fun r => (ofJson r).data = (ofJson j).data).getD j

end CodeAtlas.Source
