import X509Validator.Lib.StackSearch
import X509Validator.Lib.TreeSize
import X509Validator.Lib.RankSort
import X509Validator.Lib.Obligations
import X509Validator.Lib.Checks
import X509Validator.Lib.Budget
import X509Validator.Lib.Shortcut
import X509Validator.Lib.Ascii
import X509Validator.Lib.Bits
import X509Validator.Lib.Split
import X509Validator.Lib.IpText
import X509Validator.Lib.IpGrammar
import X509Validator.Lib.Lines
import X509Validator.Lib.LineFormat
import X509Validator.Lib.Laminar
import X509Validator.Certificate
import X509Validator.Store
import X509Validator.Policy
import X509Validator.Validator
import X509Validator.Search
import X509Validator.Enumeration
import X509Validator.Soundness
import X509Validator.Termination
import X509Validator.Completeness
import X509Validator.Irrelevance
import X509Validator.Alternatives
import X509Validator.Diagnostics
import X509Validator.Rendering
import X509Validator.MultilineDescription
import X509Validator.Rfc5280.DnsNames
import X509Validator.Rfc5280.DnsGrammar
import X509Validator.Rfc5280.LabelSuffix
import X509Validator.Rfc5280.IpConstraints
import X509Validator.Rfc5280.UriConstraints
import X509Validator.Rfc5280.NameConstraints
import X509Validator.Rfc5280.BasicConstraints
import X509Validator.Rfc5280.PathLength
import X509Validator.Rfc5280.ExtendedKeyUsage
import X509Validator.Rfc5280.KeyPurposes
import X509Validator.Rfc5280.Rfc5280Policy
import X509Validator.ServerIdentity
import X509Validator.HostnamePatterns
import X509Validator.WildcardLabels
import X509Validator.NameCoverage
import X509Validator.IdentityConstraints
import X509Validator.Rfc5280.Uncomparable
import X509Validator.LoopDetection
import X509Validator.Simulation
import X509Validator.PolicyAlgebra
import X509Validator.PolicyBlocks
import X509Validator.Multiplicity
import X509Validator.Crypto.Backends
import X509Validator.Rfc5280.PathValidation
import X509Validator.Rfc5280.ValidityWindow
import X509Validator.Rfc5280.SubtreeNesting
import X509Validator.SearchCost
import X509Validator.Withdrawal
import X509Validator.ServerAuthentication
