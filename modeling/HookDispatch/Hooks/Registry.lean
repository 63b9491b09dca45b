import HookDispatch.Method.Signature

/-!
Collected hooks, in the order of their discovery. A key belongs to the first method registered
under it; its position is the method's id, by which programs refer to it.
-/
namespace HookDispatch

/-- The position of a collected hook, kept in 32 bits. -/
structure MethodId where
  index : UInt32
deriving DecidableEq, Repr

namespace MethodId

/-- The id of a position; positions beyond 32 bits lose their high bits. -/
def ofNat (n : Nat) : MethodId := ⟨n.toUInt32⟩

def toNat (id : MethodId) : Nat := id.index.toNat

def text (id : MethodId) : String := "m" ++ toString id.toNat

end MethodId

/-- Methods by signature key, each key once. -/
structure Registry where
  entries : List (Signature × Method) := []
  keys_nodup : (entries.map Prod.fst).Nodup := by decide

namespace Registry

def empty : Registry := {}

def keys (r : Registry) : List Signature := r.entries.map Prod.fst

def size (r : Registry) : Nat := r.entries.length

/-- Registers a method under a key, unless the key is taken. -/
def insert (r : Registry) (key : Signature) (m : Method) : Registry :=
  if h : key ∈ r.keys then r
  else
    { entries := r.entries ++ [(key, m)]
      keys_nodup := by
        have hr : (r.entries.map Prod.fst).Nodup := r.keys_nodup
        simp only [keys] at h
        simp only [List.map_append, List.map_cons, List.map_nil, List.nodup_append]
        refine ⟨hr, by simp, ?_⟩
        intro a ha b hb hab
        simp only [List.mem_singleton] at hb
        exact h (hb ▸ hab ▸ ha) }

/-- The hook with the given id. -/
def get? (r : Registry) (id : MethodId) : Option (Signature × Method) := r.entries[id.toNat]?

def idOf? (r : Registry) (key : String) : Option MethodId :=
  (r.entries.findIdx? (·.1.text == key)).map MethodId.ofNat

def method? (r : Registry) (key : String) : Option Method :=
  (r.entries.find? (·.1.text == key)).map Prod.snd

def ofMethods (ms : List Method) : Registry :=
  ms.foldl (fun r m => r.insert (.ofMethod m) m) empty

def idKeys (r : Registry) : List (MethodId × Signature) :=
  r.keys.zipIdx.map fun (key, i) => (.ofNat i, key)

theorem entries_insert_of_not_mem {r : Registry} {key : Signature} (h : key ∉ r.keys)
    (m : Method) : (r.insert key m).entries = r.entries ++ [(key, m)] := by
  simp [insert, h]

end Registry

end HookDispatch
