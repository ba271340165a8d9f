import Simgen.Bundle.Basic
import Simgen.Journal

/-! The order in which bundles are declared. A bundle comes after the bundles it embeds;
where that leaves a choice, the order of the list and of the release decides: bundles
that wait for nothing are placed first come, first served. -/
namespace Simgen.Bundle

/-- The state of the ordering. -/
structure Ordering where
  /-- For each bundle, how many of its embeddings are not placed yet. -/
  waiting : List (String × Nat)
  /-- Bundles that wait for nothing and are not placed yet. -/
  queue : List String
  placed : List String
  deriving DecidableEq

namespace Ordering

/-- Every bundle waits for all its embeddings; those without any are queued. -/
def start (bundles : List Bundle) : Ordering :=
  let names := bundles.map Bundle.name
  let waiting := bundles.map fun b => (b.name, (b.embedded names).length)
  { waiting
    queue := (waiting.filter fun w => w.2 = 0).map Prod.fst
    placed := [] }

/-- One embedding less for `name`, which is queued when it was the last. -/
def release (s : Ordering) (name : String) : Ordering :=
  let waiting := s.waiting.map fun w => if w.1 = name then (w.1, w.2 - 1) else w
  { s with
    waiting
    queue := if waiting.lookup name = some 0 then s.queue ++ [name] else s.queue }

/-- The bundles that embed `name`, in list order, once for every member of that type. -/
def embedders (bundles : List Bundle) (name : String) : List String :=
  let names := bundles.map Bundle.name
  bundles.flatMap fun b => ((b.embedded names).filter (· = name)).map fun _ => b.name

/-- Places the bundle `name`, taken from the queue, of which `rest` is left. -/
def place (bundles : List Bundle) (s : Ordering) (name : String) (rest : List String) : Ordering :=
  (embedders bundles name).foldl release { s with queue := rest, placed := s.placed ++ [name] }

/-- Places up to `n` bundles from the queue. -/
def drain (bundles : List Bundle) : Nat → Ordering → Ordering
  | 0, s => s
  | n + 1, s => match s.queue with
    | [] => s
    | name :: rest => drain bundles n (place bundles s name rest)

/-- The ordering when the queue is empty: no bundle is placed twice, so that as many
steps as there are bundles suffice. -/
def final (bundles : List Bundle) : Ordering := drain bundles bundles.length (start bundles)

/-- The bundles that still wait for an embedding. -/
def blocked (s : Ordering) : List String := (s.waiting.filter fun w => w.2 ≠ 0).map Prod.fst

end Ordering

/-- The declaration order of a list of bundles, or the bundles that a cycle keeps from
being declared. -/
def declarationOrder (bundles : List Bundle) : Except Cause (List String) :=
  let s := Ordering.final bundles
  if s.placed.length = bundles.length then .ok s.placed else .error (.cycle s.blocked)

/-- One warning for every member whose type is neither primitive nor in the list. -/
def unknownTypes (bundles : List Bundle) : List Warning :=
  let names := bundles.map Bundle.name
  bundles.flatMap fun b => b.dependencies.filterMap fun (member, type) =>
    if names.contains type then none else some (.unknownType b.name member type)

/-- Orders a list of bundles and warns of unknown types. -/
def arrange (bundles : List Bundle) : Traced (List String) := do
  Traced.tell ((unknownTypes bundles).map .warning)
  let order ← Traced.lift (declarationOrder bundles)
  Traced.note .debug ("bundle order: " ++ ", ".intercalate order)
  return order

end Simgen.Bundle
