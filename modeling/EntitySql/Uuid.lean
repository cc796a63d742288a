import EntitySql.Text.Hex

/-!
# Universally unique identifiers

A `Uuid` is sixteen bytes. It is written as five groups of hexadecimal digits with hyphens between
them. It is read in that form, bare, in braces or after `urn:uuid:`, or as 32 digits on end, with
digits of either case.
-/

namespace EntitySql

/-- A universally unique identifier. -/
structure Uuid where
  bytes : List UInt8
  length_eq : bytes.length = 16
deriving DecidableEq

namespace Uuid

/-- The identifier of zeros. -/
def nil : Uuid := ⟨List.replicate 16 0, by decide⟩

/-- The identifier with these bytes. -/
def ofBytes? (bytes : List UInt8) : Option Uuid :=
  if h : bytes.length = 16 then some ⟨bytes, h⟩ else none

/-- The hyphenated form, in lower case. -/
def toChars (u : Uuid) : List Char :=
  let ds := Text.hexBytes u.bytes
  ds.take 8 ++ '-' :: (ds.drop 8).take 4 ++ '-' :: (ds.drop 12).take 4 ++ '-' ::
    (ds.drop 16).take 4 ++ '-' :: ds.drop 20

/-- The hyphenated form, in lower case. -/
def toText (u : Uuid) : String := String.ofList u.toChars

/-- Reads 32 digits on end. -/
def readPlain? (s : List Char) : Option Uuid := (Text.readHexBytes? s).bind ofBytes?

/-- Reads five groups of digits with hyphens between them. -/
def readHyphenated? (s : List Char) : Option Uuid :=
  if s.length = 36 ∧ [8, 13, 18, 23].all (fun i => s[i]? = some '-') then
    readPlain?
      (s.take 8 ++ (s.drop 9).take 4 ++ (s.drop 14).take 4 ++ (s.drop 19).take 4 ++ s.drop 24)
  else none

/-- Reads an identifier in any of its forms. -/
def read? (s : List Char) : Option Uuid :=
  match s with
  | '{' :: rest =>
    if rest.getLast? = some '}' then readHyphenated? rest.dropLast else none
  | 'u' :: 'r' :: 'n' :: ':' :: 'u' :: 'u' :: 'i' :: 'd' :: ':' :: rest => readHyphenated? rest
  | _ => if s.length = 32 then readPlain? s else readHyphenated? s

end Uuid

end EntitySql
