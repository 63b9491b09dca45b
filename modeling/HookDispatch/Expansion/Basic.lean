import HookDispatch.DispatchLoop.OfProgram
import HookDispatch.DispatchLoop.Printer
import HookDispatch.Expansion.Options

/-!
Expanding an implementation block. The block is described, a dispatcher is generated for its
table, and the dispatcher's loop becomes the body of a method, beside a constant that lists the
keys of the hooks. Only inherent blocks are expanded.
-/
namespace HookDispatch

open Source

structure Expansion where
  /-- The block itself, without its hook attributes. -/
  block : ImplBlock
  program : Program
  loop : DispatchLoop

namespace Expansion

def ofBlock (o : Options) (b : ImplBlock) : Traced (Except ExpansionError Expansion) :=
  if b.isTraitImpl then ⟨[], .error .notInherent⟩
  else
    match b.describe with
    | .error e => ⟨[], .error e⟩
    | .ok d =>
      match ((Generator.standard o.config).generate d.table).2 with
      | ⟨events, .error e⟩ => ⟨events, .error (.generation e)⟩
      | ⟨events, .ok program⟩ =>
        ⟨events, (DispatchLoop.ofProgram program d.identifiers).map fun loop =>
          ⟨b.withoutHookTags, program, loop⟩⟩

def ofSource (options : String) (source : ImplSource) : Traced (Except ExpansionError Expansion) :=
  match ImplBlock.read? source with
  | none => ⟨[], .error .malformed⟩
  | some b =>
    match Options.read options with
    | .error e => ⟨[], .error e⟩
    | .ok o => ofBlock o b

def headWords (b : ImplBlock) (trait : List String) : List String :=
  ["impl", TokenTree.render b.generics.declarations] ++ trait ++
    [b.selfType.render, TokenTree.render b.whereClause]

def blockText (b : ImplBlock) (trait : List String) (items : List String) : String :=
  DispatchLoop.spaced ((headWords b trait).filter (!·.isEmpty) ++
    [DispatchLoop.braced (DispatchLoop.spaced items)])

def keyItems (keys : List String) : List String :=
  ["# [doc = r\" Signature keys reachable through `direct_call_hook`, in discovery order.\"]",
    "# [allow (dead_code)]",
    "pub const HOOK_SIGNATURES : & 'static [& 'static str] = & [" ++
      String.intercalate " , " (keys.map Text.stringLiteral) ++ "] ;"]

def methodItems (body : String) : List String :=
  ["# [allow (unused_assignments , unused_mut , unused_variables , unreachable_code , " ++
      "clippy :: all)]",
    "fn direct_call_hook (& mut self , name : :: core :: option :: Option < & str > , " ++
      "result : & mut :: core :: option :: Option < :: hookwire :: Object > , " ++
      "args : & mut [:: hookwire :: Object] ,) -> " ++
      ":: core :: result :: Result < bool , :: hookwire :: MarshalError >",
    DispatchLoop.braced body]

/-- The generated source: a block with the constant and one with the dispatch method. -/
def text (e : Expansion) : String :=
  DispatchLoop.spaced [blockText e.block [] (keyItems e.program.keys),
    blockText e.block [":: hookwire :: DirectCallHook for"] (methodItems e.loop.text)]

end Expansion

end HookDispatch
