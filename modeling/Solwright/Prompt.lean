import Solwright.Json.Writer
import Solwright.Text.Join

/-!
The texts that a model is asked with.
-/

namespace Solwright.Prompt

open Solwright.Text

/-- A configuration after a heading, where there is one that is not empty. -/
def contextText (heading : String) (context : Json) : String :=
  if context.isTrue then "\n\n" ++ heading ++ ": " ++ String.ofList context.write else ""

def suggestionQuestion (prompt : RawText) (context : Json) : RawText :=
  "Request: \"" ++ prompt ++ "\"" ++ contextText "Current configuration" context

def contractQuestion (prompt : RawText) (context : Json) : RawText :=
  "Generate a Solidity smart contract for this requirement: \"" ++ prompt ++ "\"" ++
    contextText "Additional context" context

def suggestionInstruction : String := joined "\n"
  ["You are an expert Solidity smart contract developer. Analyze the contract request and provide "
    ++ "structured recommendations.",
   "",
   "Contract family, choose one:",
   "- fungible-token: fungible tokens (currencies, utility tokens)",
   "- non-fungible-token: NFTs (unique collectibles, certificates)",
   "- multi-token: multi-token contracts (gaming items, multiple token types)",
   "- governance-token: DAO tokens with voting capabilities",
   "- custom: specialized contracts",
   "",
   "Contract details:",
   "- contractName: PascalCase, letters and digits only, no spaces",
   "- symbol: 3-5 uppercase letters",
   "- initialSupply: initial supply for tokens, as a string",
   "",
   "Features, pick from:",
   "- mintable, burnable, pausable, capped, permit (fungible-token)",
   "- enumerable, uri_storage, burnable, pausable, royalty (non-fungible-token)",
   "- burnable, pausable, supply (multi-token)",
   "",
   "Respond ONLY with valid JSON in this exact format:",
   "\x7b",
   "  \"family\": \"fungible-token|non-fungible-token|multi-token|governance-token|custom\",",
   "  \"contractName\": \"YourContractName\",",
   "  \"symbol\": \"SYMBOL\",",
   "  \"initialSupply\": \"1000000\",",
   "  \"features\": [\"feature1\", \"feature2\"],",
   "  \"reasoning\": \"Brief explanation of choices\"",
   "\x7d"]

def contractInstruction : String := joined "\n"
  ["You are an expert Solidity smart contract developer. Write complete, secure and gas-efficient "
    ++ "contracts for the user's requirements.",
   "",
   "Guidelines:",
   "1. Use pragma solidity ^0.8.20",
   "2. Build on OpenZeppelin Contracts 5.x imported from @openzeppelin/contracts/",
   "3. Start with an SPDX MIT license line",
   "4. Add NatSpec comments to public functions",
   "5. Use custom errors or require messages for every failure path",
   "",
   "Respond ONLY with a JSON object in this exact format:",
   "\x7b",
   "  \"contractCode\": \"complete solidity source\",",
   "  \"contractName\": \"NameOfTheMainContract\",",
   "  \"symbol\": \"token symbol if applicable\",",
   "  \"contractType\": "
    ++ "\"fungible-token|non-fungible-token|multi-token|governance-token|custom\",",
   "  \"features\": [\"features used\"],",
   "  \"explanation\": \"brief explanation of the contract\"",
   "\x7d",
   "",
   "Available features: ownable, mintable, burnable, pausable, capped, permit, enumerable, "
    ++ "uri_storage, royalty, supply"]

end Solwright.Prompt
