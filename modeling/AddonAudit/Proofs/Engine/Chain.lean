import AddonAudit.Script.Engine.Expression

/-!
# Chains of operators

A chain of operators is evaluated in a loop over its links. Here the loop is shown to be the
recursion down the left sides: first the value of the left side, then the right side, then the
operator. What the recursion does around each link below the first is left open, since a link may
also be evaluated as a node of its own.
-/

namespace AddonAudit.Script.Engine

mutual

/-- The value of a chain by recursion down its left sides. -/
def chainValue (around : Node → Engine Value → Engine Value) (visit : Visit) : Node → Engine Value
  | ⟨kind, role, id, start, text, missing, children⟩ => do
    let left ← chainLeft around visit children
    applyLink visit left ⟨kind, role, id, start, text, missing, children⟩

/-- The value of the left side among the children of a link. -/
def chainLeft (around : Node → Engine Value → Engine Value) (visit : Visit) :
    List Node → Engine Value
  | [] => return .unknown
  | n :: rest =>
    if n.role = some .left then
      if n.kind = .binaryExpression then around n (chainValue around visit n) else visit n
    else chainLeft around visit rest

end

variable {visit : Visit}

/-- The value of a chain of which nothing but the operands is evaluated as a node. -/
def bareChainValue (visit : Visit) (n : Node) : Engine Value :=
  chainValue (fun _ x => x) visit n

/-- The loop over the links of a chain that starts with its innermost operand. -/
def foldChain (visit : Visit) (chain : List Node × Option Node) : Engine Value := do
  let left ← innermost visit chain.2
  foldSpine visit left chain.1

mutual

/-- The loop over a chain and the links around it runs the chain, then the links. -/
theorem foldChain_spine : ∀ (n : Node) (outer : List Node),
    foldChain visit (spine outer n) = (do foldSpine visit (← bareChainValue visit n) outer)
  | ⟨kind, role, id, start, text, missing, children⟩, outer => by
      rw [spine, foldChain_spineBelow, bareChainValue, chainValue, bind_assoc]
      rfl

theorem foldChain_spineBelow : ∀ (nodes links : List Node),
    foldChain visit (spineBelow links nodes) =
      (do foldSpine visit (← chainLeft (fun _ x => x) visit nodes) links)
  | [], links => by rw [spineBelow, chainLeft]; rfl
  | n :: rest, links => by
      rw [spineBelow, chainLeft]
      split
      · split
        · exact foldChain_spine n links
        · rfl
      · exact foldChain_spineBelow rest links

end

/-- Folding a chain in a loop is the recursion down its left sides. -/
theorem binaryValue_eq_bareChainValue (n : Node) :
    binaryValue visit n = bareChainValue visit n := by
  calc binaryValue visit n
      = foldChain visit (spine [] n) := rfl
    _ = (do foldSpine visit (← bareChainValue visit n) []) := foldChain_spine n []
    _ = bareChainValue visit n := bind_pure _

end AddonAudit.Script.Engine
