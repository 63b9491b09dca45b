import HookDispatch.TypeName.Basic

/-!
Boxed values. Every value has exactly one kind, its dynamic type, and nothing converts between
kinds. A value whose type is not among the listed ones is known by its type and a number only.
-/
namespace HookDispatch

inductive Value where
  | i32 (n : Int32)
  | i64 (n : Int64)
  | u8 (n : UInt8)
  | u32 (n : UInt32)
  | u64 (n : UInt64)
  | usize (n : UInt64)
  | bool (b : Bool)
  | char (c : Char)
  /-- An owned text. -/
  | string (s : String)
  /-- A borrowed text. -/
  | str (s : String)
  | unit
  | bytes (bs : List UInt8)
  | strings (ss : List String)
  | maybeI32 (n : Option Int32)
  | maybeString (s : Option String)
  /-- An object boxed once more. -/
  | object (inner : Value)
  | other (type : String) (id : Nat)
deriving DecidableEq, Repr

/-- The dynamic type of a value. -/
inductive Kind where
  | i32 | i64 | u8 | u32 | u64 | usize | bool | char | string | str | unit | bytes | strings
  | maybeI32 | maybeString | object
  | other (type : String)
deriving DecidableEq, Repr

namespace Kind

def all : List Kind :=
  [i32, i64, u8, u32, u64, usize, bool, char, string, str, unit, bytes, strings, maybeI32,
    maybeString, object]

def tag : Kind → String
  | i32 => "i32"
  | i64 => "i64"
  | u8 => "u8"
  | u32 => "u32"
  | u64 => "u64"
  | usize => "usize"
  | bool => "bool"
  | char => "char"
  | string => "String"
  | str => "&str"
  | unit => "()"
  | bytes => "Vec<u8>"
  | strings => "Vec<String>"
  | maybeI32 => "Option<i32>"
  | maybeString => "Option<String>"
  | object => "Object"
  | other type => type

def typeName : Kind → String
  | string => "alloc::string::String"
  | bytes => "alloc::vec::Vec<u8>"
  | strings => "alloc::vec::Vec<alloc::string::String>"
  | maybeI32 => "core::option::Option<i32>"
  | maybeString => "core::option::Option<alloc::string::String>"
  | object => "alloc::sync::Arc<dyn core::any::Any + core::marker::Send + core::marker::Sync>"
  | kind => kind.tag

def ofTag? (tag : String) : Option Kind := all.find? (·.tag == tag)

def ofType (t : TypeName) : Kind :=
  (all.find? fun kind => t.sameType ⟨kind.tag⟩).getD (.other t.canonical)

end Kind

def Value.kind : Value → Kind
  | i32 _ => .i32
  | i64 _ => .i64
  | u8 _ => .u8
  | u32 _ => .u32
  | u64 _ => .u64
  | usize _ => .usize
  | bool _ => .bool
  | char _ => .char
  | string _ => .string
  | str _ => .str
  | unit => .unit
  | bytes _ => .bytes
  | strings _ => .strings
  | maybeI32 _ => .maybeI32
  | maybeString _ => .maybeString
  | object _ => .object
  | other type _ => .other type

end HookDispatch
