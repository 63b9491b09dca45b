import HookDispatch.DispatchLoop.OfProgram
import HookDispatch.Machine.Behaviour
import HookDispatch.Proofs.Machine.Binding
import HookDispatch.Proofs.Program.Layout
import HookDispatch.Proofs.Trie.Hooks
import HookDispatch.Trie.OfRegistry

/-!
Registries for examples. In one with two hooks the key of the first is the start of the key of the
second, which has a bare name of its own and borrows its argument mutably. The hook of the other one
has two arguments, borrows the first mutably and returns a number.
-/
namespace HookDispatch.Specimen

def first : Method where
  name := "a"
  owner := "T"

def second : Method where
  name := "ab"
  owner := "T"
  params := [{ name := "x", element := ⟨"i32"⟩, passing := .mutable }]
  ret := .object

def registry : Registry where
  entries := [(⟨"a"⟩, first), (⟨"ab(i32)"⟩, second)]

def trie : Trie where
  edges :=
    .cons 1 97 (some ⟨0⟩)
      (.cons 2 98 (some ⟨1⟩)
        (.cons 3 40 none
          (.cons 4 105 none
            (.cons 5 51 none (.cons 6 50 none (.cons 7 41 (some ⟨1⟩) .nil .nil) .nil) .nil) .nil)
          .nil)
        .nil)
      .nil
  size := 8
  keyCount := 3

/-- Invokers that count their calls. The one of the second hook replaces its argument. -/
def bindings : List (Signature × Invoker Nat) :=
  [(⟨"a"⟩, fun count => .ofResult (count + 1) none),
    (⟨"ab(i32)"⟩, fun count =>
      .box (.i32 5) fun o => .write 0 o fun _ => .ofResult (count + 1) (some o))]

theorem trie_eq : Trie.ofRegistry registry true = .ok trie := rfl

/-- With the shortcut or without it, the program of the trie has its invokers. -/
theorem exists_dispatcher (collapse : Bool) :
    ∃ p d, (trie.compile registry collapse "T").2.value = .ok p ∧
      Dispatcher.ofProgram p (.ofBindings bindings) = .ok d := by
  have ht := (Trie.reachable_ofRegistry trie_eq).sound
  have hcallable := Trie.callable_ofRegistry trie_eq (by decide) (by decide)
  obtain ⟨p, hp, -⟩ := Trie.compile_ok ht hcallable collapse "T" (by cases collapse <;> decide)
  obtain ⟨L⟩ := Trie.exists_layout ht hp
  have hbound : ∀ entry ∈ p.hooks, ((HookTable.ofBindings bindings).get? entry.1).isSome := by
    rw [L.hooks]
    decide
  obtain ⟨d, hd⟩ := Dispatcher.ofProgram_ok hbound
  exact ⟨p, d, hp, hd⟩

/-- A compiled program has a loop if lowering it is seen to succeed. -/
theorem exists_loop_of_lowers {compiled : Except CompileError Program} {p : Program}
    (ids : Identifiers) (hp : compiled = .ok p) (hlowers : compiled.toOption.any
      (fun p => (DispatchLoop.ofProgram p ids).toOption.isSome) = true) :
    ∃ loop, DispatchLoop.ofProgram p ids = .ok loop := by
  rw [hp] at hlowers
  cases hloop : DispatchLoop.ofProgram p ids with
  | error e =>
    simp [hloop, Except.toOption] at hlowers
  | ok loop => exact ⟨loop, rfl⟩

def pair : Method where
  name := "p"
  owner := "T"
  params := [{ name := "x", element := ⟨"i32"⟩, passing := .mutable },
    { name := "y", element := ⟨"i32"⟩ }]
  ret := .value ⟨"i32"⟩

def pairRegistry : Registry where
  entries := [(⟨"p(&mut i32, i32)"⟩, pair)]

def pairTrie : Trie where
  edges := Edges.nil.insert 1 ⟨0⟩ (Text.bytes "p(&mut i32, i32)")
  size := 17
  keyCount := 1

theorem pairTrie_eq : Trie.ofRegistry pairRegistry false = .ok pairTrie := rfl

/-- Every method counts its calls, leaves seven in its parameters and returns five. -/
def countingMethods : String → Behaviour Nat := fun _ count data =>
  ⟨count + 1, data.map fun _ => .plain (.i32 7), some (.plain (.i32 5))⟩

theorem exists_pairLoop :
    ∃ p loop, (pairTrie.compile pairRegistry true "T").2.value = .ok p ∧
      p.size ≤ UInt32.size ∧ DispatchLoop.ofProgram p [("p", "p")] = .ok loop := by
  have ht := Trie.reachable_ofRegistry pairTrie_eq
  have hcallable := Trie.callable_ofRegistry pairTrie_eq (by decide) (by decide)
  obtain ⟨p, hp, hsize⟩ := Trie.compile_ok ht.sound hcallable true "T" (by decide)
  obtain ⟨loop, hloop⟩ := exists_loop_of_lowers [("p", "p")] hp (by decide +kernel)
  refine ⟨p, loop, hp, ?_, hloop⟩
  rw [hsize]
  decide

end HookDispatch.Specimen
