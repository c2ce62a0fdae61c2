import ObjectGraph.Access.Container
import ObjectGraph.Access.Edit
import ObjectGraph.Access.Error
import ObjectGraph.Access.Location
import ObjectGraph.Access.Read
import ObjectGraph.Accessors
import ObjectGraph.Catalog
import ObjectGraph.Decimal.Notation
import ObjectGraph.Decimal.Shortest
import ObjectGraph.Declaration
import ObjectGraph.Examples.Ring
import ObjectGraph.Examples.Tools
import ObjectGraph.Heap
import ObjectGraph.KeyedMap
import ObjectGraph.Layout
import ObjectGraph.Listing
import ObjectGraph.NameTable
import ObjectGraph.Path.Basic
import ObjectGraph.Path.Cursor
import ObjectGraph.Path.Step
import ObjectGraph.Proofs.Acceptance
import ObjectGraph.Proofs.Access
import ObjectGraph.Proofs.Addressability
import ObjectGraph.Proofs.Agreement
import ObjectGraph.Proofs.ByteReading
import ObjectGraph.Proofs.Commutation
import ObjectGraph.Proofs.Conservation
import ObjectGraph.Proofs.Declarations
import ObjectGraph.Proofs.Diagnosis
import ObjectGraph.Proofs.Equality
import ObjectGraph.Proofs.Facades
import ObjectGraph.Proofs.FailedWrite
import ObjectGraph.Proofs.FiniteMaps
import ObjectGraph.Proofs.Grammar
import ObjectGraph.Proofs.InPlace
import ObjectGraph.Proofs.IndependentTypes
import ObjectGraph.Proofs.Inheritance
import ObjectGraph.Proofs.JoinedPaths
import ObjectGraph.Proofs.KeptLocation
import ObjectGraph.Proofs.ListGrowth
import ObjectGraph.Proofs.Lists
import ObjectGraph.Proofs.MemberAccess
import ObjectGraph.Proofs.NearestMember
import ObjectGraph.Proofs.Place
import ObjectGraph.Proofs.Programs
import ObjectGraph.Proofs.ReadAfterWrite
import ObjectGraph.Proofs.ReferenceFree
import ObjectGraph.Proofs.RegistrationLog
import ObjectGraph.Proofs.Separation
import ObjectGraph.Proofs.Session
import ObjectGraph.Proofs.ShownFields
import ObjectGraph.Proofs.StaticTypes
import ObjectGraph.Proofs.StructFields
import ObjectGraph.Proofs.Subtyping
import ObjectGraph.Proofs.Target
import ObjectGraph.Proofs.TreeReads
import ObjectGraph.Proofs.TypedAccess
import ObjectGraph.Proofs.TypedRegistration
import ObjectGraph.Proofs.TypedRules
import ObjectGraph.Proofs.Typing
import ObjectGraph.Proofs.Unfolding
import ObjectGraph.Proofs.Visibility
import ObjectGraph.Proofs.Writable
import ObjectGraph.Proofs.WriteBack
import ObjectGraph.Proofs.WriteFrame
import ObjectGraph.Proofs.WrittenForm
import ObjectGraph.PropertyRule
import ObjectGraph.Registration
import ObjectGraph.SlotType
import ObjectGraph.Text.Quoted
import ObjectGraph.Text.Unprintable
import ObjectGraph.Tree
import ObjectGraph.Tree.Json
import ObjectGraph.Value
