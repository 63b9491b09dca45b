import HookDispatch.Event
import HookDispatch.Program.Emission

/-!
Compiling a trie: its emission is laid out, the entered nodes are marked with their first
operations, and the pending jumps are patched. A trie keeps the marks of all nodes that were
entered before a failure.
-/
namespace HookDispatch.Trie

def link (t : Trie) (r : Registry) (typeName : String) (items : List Item) :
    Traced (Except CompileError Program) :=
  let ops := items.map Item.operation
  let epilogue := Label.ofNat (ops.length - 2)
  match resolveJumps (pendingJumps items) t.firstOp? epilogue ops.toArray with
  | (_, .error e) => ⟨[], .error e⟩
  | (resolved, .ok count) =>
    ⟨[.resolved count epilogue],
      .ok ⟨typeName, resolved, r.entries, epilogue, tempDemand 0 ops⟩⟩

/-- Compiles a trie for a type; the answer has the trie with its marks. -/
def compile (t : Trie) (r : Registry) (collapse : Bool) (typeName : String) :
    Trie × Traced (Except CompileError Program) :=
  let emission := t.emit r collapse
  let marked := t.mark (entryMarks emission.items)
  match emission.fault? with
  | some e => (marked, ⟨[], .error e⟩)
  | none => (marked, marked.link r typeName emission.items)

end HookDispatch.Trie
