import Solwright.Compiler.Artifact
import Solwright.Deployment.Arguments
import Solwright.Deployment.Wei

/-!
The transaction that creates a contract: the creation code of an artifact followed by the arguments
of its constructor, and what it costs.
-/

namespace Solwright.Deployment

open Solwright.Text

def types : List Json → Except Fault (List String)
  | [] => .ok []
  | v :: rest =>
    match v.get? "type" with
    | some type => (types rest).map (type.display.shown :: ·)
    | none => .error .missingKey

def encoded (ins : List Json) (arguments : List Argument) : Except Fault (List UInt8) :=
  (types ins).bind fun ts => AbiType.encode ts arguments

def initCode (bytecode : String) (arguments : List UInt8) : String :=
  String.ofList (withHexMark (dropHexMark bytecode.toList ++ hexText arguments))

def payload (room : Nat) (a : Artifact) (r : Request) : Except Fault String :=
  let code := a.bytecode.getD ""
  if code.isEmpty then
    .error (.failure (.rejected ["Contract " ++ a.contractName ++ " has no creation bytecode"]))
  else if a.linkReferences.isTrue then
    .error (.failure (.rejected ["Contract " ++ a.contractName ++ " requires library linking"]))
  else
    (inputs a.abi).bind fun ins =>
    (argumentsFor room ins r).bind fun args =>
    (encoded ins args).map (initCode code)

def summary (room : Nat) (a : Artifact) (r : Request) (gasPrice chain : Json) :
    Except Fault (List (RawText × Json)) :=
  (Wei.ofPrice gasPrice).bind fun price =>
  (payload room a r).bind fun data =>
  (Wei.inEther (a.gasEstimate * price)).map fun cost =>
    ("data", .str data) :: ("gas", .int a.gasEstimate) :: ("gasPrice", .int price) ::
    ("estimatedCostEth", .str cost) :: ("sizeBytes", .int a.size) ::
    ("overSizeLimit", .bool a.tooLarge) ::
      if isGiven chain then [("chainId", chain)] else []

end Solwright.Deployment
