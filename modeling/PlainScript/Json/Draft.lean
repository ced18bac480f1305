import PlainScript.Json.Value

/-! A value that is built step by step. Beside what it shows, a draft keeps the items and the fields
that were put into it, so that items and fields can be added in turn; the last addition decides
which of them it shows. -/
namespace PlainScript.Json

structure Draft where
  value : Value := .null
  items : List Value := []
  fields : Table Value := {}

namespace Draft

def ofValue : Value → Draft
  | .array items => { value := .array items, items }
  | .object fields => { value := .object fields, fields }
  | v => { value := v }

def push (d : Draft) (v : Value) : Draft :=
  let items := d.items ++ [v]
  { d with value := .array items, items }

def set (d : Draft) (key : Text) (v : Value) : Draft :=
  let fields := d.fields.insert key v
  { d with value := .object fields, fields }

end Draft

end PlainScript.Json
