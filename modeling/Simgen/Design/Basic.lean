import Simgen.Bundle.Basic
import Simgen.Combine.Basic

/-! A design: bundles and combines that are ready to be emitted. -/
namespace Simgen

structure Design where
  /-- The bundles in the order in which they were read. -/
  bundles : List Bundle
  /-- The names of the bundles in declaration order. -/
  order : List String
  combines : List Combine
  deriving DecidableEq

namespace Design

def bundle? (d : Design) (name : String) : Option Bundle :=
  d.bundles.find? fun b => b.name = name

/-- The bundles in declaration order. A name without a bundle is passed over. -/
def bundlesInOrder (d : Design) : List Bundle := d.order.filterMap d.bundle?

def combine? (d : Design) (name : String) : Option Combine :=
  d.combines.find? fun c => c.name = name

/-- Adds a bundle behind the others, in place of one of the same name. -/
def addBundle (bundles : List Bundle) (b : Bundle) : List Bundle :=
  (bundles.filter fun other => other.name ≠ b.name) ++ [b]

end Design

end Simgen
