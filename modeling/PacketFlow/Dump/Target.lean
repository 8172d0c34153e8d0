import PacketFlow.Text.Fold

/-!
The names that a rule can jump to without there being a chain: target extensions, which decide or
annotate a packet, and verdicts, which end its way through a table. Case does not matter in either.
-/
namespace PacketFlow.Dump

/-- The target extensions, in small letters. -/
def extensionNames : List String :=
  ["balance", "classify", "clusterip", "connmark", "dnat", "dscp", "ecn", "ipmark",
   "ipv4optsstrip", "log", "mark", "masquerade", "mirror", "netmap", "nfqueue", "notrack",
   "redirect", "reject", "same", "set", "snat", "tarpit", "tcpmss", "tos", "trace", "ttl",
   "ulog", "xor"]

/-- Whether a name is that of a target extension. -/
def isExtensionName (name : String) : Bool :=
  extensionNames.contains (Text.fold name)

/-- The verdicts that need no extension. -/
def verdicts : List String :=
  ["ACCEPT", "DROP", "RETURN", "QUEUE"]

/-- Whether a name is that of a verdict. -/
def isVerdict (name : String) : Bool :=
  verdicts.any fun verdict => Text.sameName verdict name

end PacketFlow.Dump
